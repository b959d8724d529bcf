/-
The choices of a document laid over other choices. The document decides every field that it sets and
no other, and it is refused where it is refused by itself.
-/
import Mathlib.Data.List.Nodup
import Ecma.Engine.Configuration

namespace Ecma

namespace Toml

/-! ## Tables over tables -/

variable {name other : String} {entries : Table} {value : Toml}

/-- No name has two entries. -/
def Distinct (entries : Table) : Prop := (entries.map Prod.fst).Nodup

theorem lookup_replace (value : Toml) (entries : Table) :
    (replace name value entries).lookup other =
      if other = name then some value else entries.lookup other := by
  induction entries with
  | nil | cons entry rest ih => grind [replace]

/-- Entries are laid over a table one after the other; each meets what there was of its name. -/
theorem lookup_foldl {upper : Table} (h : Distinct upper) (f : Option Toml → Toml → Toml)
    (entries : Table) :
    (upper.foldl (fun entries entry => replace entry.1 (f (entries.lookup entry.1) entry.2) entries)
      entries).lookup name =
        ((upper.lookup name).map (f (entries.lookup name))).or (entries.lookup name) := by
  induction upper generalizing entries with
  | nil => rfl
  | cons entry rest ih =>
    obtain ⟨hn, hr⟩ := List.nodup_cons.mp h
    rw [List.foldl_cons, ih hr, lookup_replace, List.lookup_cons]
    by_cases he : name = entry.1
    · have hnone : rest.lookup name = none := List.lookup_eq_none_iff.mpr fun other ho => by grind
      subst he
      simp [hnone]
    · have hb : (name == entry.1) = false := by simpa using he
      simp [he, hb]

/-- What an entry becomes under another of its name. -/
def laid (old : Option Toml) : Toml → Toml
  | .table upper =>
    match old with
    | some (.table inner) => .table (extend inner upper)
    | _ => .table upper
  | value => value

theorem lookup_extend {upper : Table} (h : Distinct upper) (entries : Table) :
    (extend entries upper).lookup name = (upper.lookup name).or (entries.lookup name) := by
  exact (lookup_foldl h (fun _ value => value) entries).trans (by simp)

theorem lookup_overlay {upper : Table} (h : Distinct upper) (entries : Table) :
    (overlay entries upper).lookup name =
      ((upper.lookup name).map (laid (entries.lookup name))).or (entries.lookup name) := by
  rw [← lookup_foldl h laid, overlay]
  congr 2
  funext entries entry
  unfold layOver laid
  grind

/-! ## Names of documents -/

/-- No name has two entries in a value that is a table. -/
def Flat (value : Toml) : Prop := ∀ inner, value = .table inner → Distinct inner

/-- No name of a table has two entries, nor one of the tables in it. -/
def Proper (entries : Table) : Prop := Distinct entries ∧ ∀ entry ∈ entries, entry.2.Flat

theorem Distinct.append (h : Distinct entries) (hn : entries.lookup name = none) (value : Toml) :
    Distinct (entries ++ [(name, value)]) := by
  have := List.lookup_eq_none_iff.mp hn
  simp only [Distinct, List.map_append, List.nodup_append]
  refine ⟨h, by simp, ?_⟩
  grind

theorem mem_replace {entry : String × Toml} (h : entry ∈ replace name value entries) :
    entry = (name, value) ∨ entry ∈ entries := by
  induction entries <;> grind [replace]

theorem Distinct.replace (h : Distinct entries) (value : Toml) : Distinct (replace name value entries) := by
  induction entries with
  | nil => simp [Distinct, Toml.replace]
  | cons entry rest ih =>
    obtain ⟨hn, hr⟩ := List.nodup_cons.mp h
    unfold Toml.replace
    split
    · next he => exact he ▸ h
    · refine List.nodup_cons.mpr ⟨fun hm => ?_, ih hr⟩
      obtain ⟨other, ho, he⟩ := List.mem_map.mp hm
      have := mem_replace ho
      grind

theorem Proper.append (h : Proper entries) (hn : entries.lookup name = none) (hv : value.Flat) :
    Proper (entries ++ [(name, value)]) :=
  ⟨h.1.append hn value, List.forall_mem_append.mpr ⟨h.2, List.forall_mem_singleton.mpr hv⟩⟩

theorem Proper.replace (h : Proper entries) (hv : value.Flat) : Proper (replace name value entries) := by
  refine ⟨h.1.replace value, fun entry hm => ?_⟩
  obtain rfl | hm := mem_replace hm
  · exact hv
  · exact h.2 entry hm

namespace Parts

/-- A change that keeps names distinct in a table and, under a condition, in the tables of a table. -/
def Kept (condition : Prop) (entries later : Parts) : Prop :=
  (Distinct (toTable entries) → Distinct (toTable later)) ∧
    (condition → Proper (toTable entries) → Proper (toTable later))

variable {entries later inner : Parts} {origin : Origin} {part : Part} {path : List String} {condition : Prop}

theorem toTable_append (entries : Parts) (name : String) (part : Part) :
    toTable (entries ++ [(name, part)]) = toTable entries ++ [(name, part.toToml)] := by
  induction entries <;> simp_all [toTable]

theorem toTable_replace (entries : Parts) (name : String) (part : Part) :
    toTable (replace name part entries) = replace name part.toToml (toTable entries) := by
  induction entries <;> grind [toTable, replace]

theorem lookup_toTable (entries : Parts) (name : String) :
    (toTable entries).lookup name = (entries.lookup name).map Part.toToml := by
  induction entries <;> grind [toTable]

theorem kept_append (hn : entries.lookup name = none) (hp : condition → part.toToml.Flat) :
    Kept condition entries (entries ++ [(name, part)]) := by
  have hl := lookup_toTable entries name
  rw [hn] at hl
  rw [Kept, toTable_append]
  exact ⟨fun hd => hd.append hl _, fun hc h => h.append hl (hp hc)⟩

theorem kept_replace (hp : condition → Proper (toTable entries) → part.toToml.Flat) :
    Kept condition entries (replace name part entries) := by
  rw [Kept, toTable_replace]
  exact ⟨fun hd => hd.replace _, fun hc h => h.replace (hp hc h)⟩

theorem distinct_inner (h : Proper (toTable entries))
    (hn : entries.lookup name = some (.table origin inner)) : Distinct (toTable inner) := by
  have hl := lookup_toTable entries name
  rw [hn] at hl
  obtain ⟨before, after, he, -⟩ := List.lookup_eq_some_iff.mp hl
  exact h.2 (name, (Part.table origin inner).toToml) (by simp [he]) _ rfl

theorem flat_table (h : Distinct (toTable inner)) : (Part.table origin inner).toToml.Flat := by
  rintro _ ⟨⟩
  exact h

/-- A change of a table within tables keeps what it keeps by itself. -/
theorem kept_within {f : Parts → Option Parts}
    (hf : ∀ {entries later}, f entries = some later → Kept condition entries later)
    (h : within? f path entries = some later) : Kept condition entries later := by
  induction path generalizing entries later with
  | nil => exact hf h
  | cons name path ih =>
    simp only [within?] at h
    split at h
    · next hn =>
      obtain ⟨inner, hi, ⟨⟩⟩ := Option.bind_eq_some_iff.mp h
      exact kept_append hn fun _ => flat_table ((ih hi).1 .nil)
    · next hn =>
      obtain ⟨inner, hi, ⟨⟩⟩ := Option.bind_eq_some_iff.mp h
      exact kept_replace fun _ hp => flat_table ((ih hi).1 (distinct_inner hp hn))
    · obtain ⟨last, -, ⟨⟩⟩ := Option.bind_eq_some_iff.mp h
      exact kept_replace fun _ _ => nofun
    · cases h

theorem kept_openTable (h : openTable? name entries = some later) : Kept condition entries later := by
  unfold openTable? at h
  split at h
  · next hn =>
    cases h
    exact kept_append hn fun _ => flat_table .nil
  · next hn =>
    cases h
    exact kept_replace fun _ hp => flat_table (distinct_inner hp hn)
  · cases h

theorem kept_openNext (h : openNext? name entries = some later) : Kept condition entries later := by
  unfold openNext? at h
  split at h
  · next hn =>
    cases h
    exact kept_append hn fun _ => nofun
  · cases h
    exact kept_replace fun _ _ => nofun
  · cases h

theorem kept_insert (h : insert? value path entries = some later) :
    Kept value.Flat entries later := by
  induction path generalizing entries later with
  | nil => cases h
  | cons name path ih =>
    cases path with
    | nil =>
      simp only [insert?] at h
      split at h
      · next hn =>
        cases h
        exact kept_append hn id
      · cases h
    | cons next path =>
      simp only [insert?] at h
      split at h
      · next hn =>
        obtain ⟨inner, hi, ⟨⟩⟩ := Option.bind_eq_some_iff.mp h
        exact kept_append hn fun _ => flat_table ((ih hi).1 .nil)
      · next hn =>
        obtain ⟨inner, hi, ⟨⟩⟩ := Option.bind_eq_some_iff.mp h
        exact kept_replace fun _ hp => flat_table ((ih hi).1 (distinct_inner hp hn))
      · next hn =>
        obtain ⟨-, h⟩ := Option.ite_none_left_eq_some.mp h
        obtain ⟨inner, hi, ⟨⟩⟩ := Option.bind_eq_some_iff.mp h
        exact kept_replace fun _ hp => flat_table ((ih hi).1 (distinct_inner hp hn))
      · obtain ⟨-, h⟩ := Option.ite_none_left_eq_some.mp h
        obtain ⟨last, -, ⟨⟩⟩ := Option.bind_eq_some_iff.mp h
        exact kept_replace fun _ _ => nofun
      · cases h
      · cases h

theorem distinct_foldlM {pairs : List (List String × Toml)} (hd : Distinct (toTable entries))
    (h : pairs.foldlM (fun entries (path, value) => insert? value path entries) entries = some later) :
    Distinct (toTable later) := by
  induction pairs generalizing entries with
  | nil =>
    cases h
    exact hd
  | cons pair rest ih =>
    obtain ⟨next, hn, h⟩ := Option.bind_eq_some_iff.mp h
    exact ih ((kept_insert hn).1 hd) h

end Parts

/-- No table is read. -/
def Plain (value? : Option Toml) : Prop := ∀ inner, value? ≠ some (.table inner)

theorem plain_bind {α : Type} {x : Option α} {f : α → Option Toml} (h : ∀ a, Plain (f a)) :
    Plain (x >>= f) := by
  cases x with
  | none => exact nofun
  | some a => exact h a

theorem plain_readInteger (text : List Char) : Plain (readInteger? text) := by
  have hr (n : Int) : Plain (inRange? n) := by
    unfold inRange?
    split <;> exact nofun
  unfold readInteger?
  split
  iterate 3 exact plain_bind fun _ => plain_bind fun _ => hr _
  exact plain_bind fun _ => hr _

theorem plain_readFloat (text : List Char) : Plain (readFloat? text) := by
  unfold readFloat?
  dsimp only
  split
  · exact nofun
  · exact nofun
  · have hf (value : Float) :
        Plain (if value == Number.infinity false then none else some (.float value)) := by
      split <;> exact nofun
    unfold readDecimal?
    dsimp only
    split
    · exact nofun
    · refine plain_bind fun _ => ?_
      split <;> refine plain_bind fun _ => ?_ <;> split
      all_goals exact plain_bind fun _ => hf _

theorem plain_readWord (word : List Char) : Plain (readWord? word) := by
  unfold readWord?
  split
  · exact nofun
  · exact nofun
  · split
    · exact nofun
    · intro inner h
      obtain h | ⟨-, h⟩ := Option.or_eq_some_iff.mp h
      · exact plain_readInteger word inner h
      · exact plain_readFloat word inner h

theorem flat_readPlain {text : List Char} {front : Front Toml} (h : readPlain text = some front) :
    front.1.Flat := by
  unfold readPlain at h
  dsimp only at h
  split at h
  · split at h <;> cases h <;> exact nofun
  · obtain ⟨value, hw, rfl⟩ := Option.map_eq_some_iff.mp h
    rintro inner rfl
    exact absurd hw (plain_readWord _ inner)

theorem flat_readValue {fuel depth : Nat} {text : List Char} {front : Front Toml}
    (h : readValue fuel depth text = some front) : front.1.Flat := by
  unfold readValue at h
  split at h
  · cases h
  · cases h
  · cases h
  · obtain ⟨items, -, rfl⟩ := Option.map_eq_some_iff.mp h
    exact nofun
  · split at h
    · cases h
      rintro _ ⟨⟩
      exact .nil
    · obtain ⟨pairs, -, h⟩ := Option.bind_eq_some_iff.mp h
      obtain ⟨parts, hp, ⟨⟩⟩ := Option.bind_eq_some_iff.mp h
      rintro _ ⟨⟩
      have hempty : Distinct (Parts.toTable []) := .nil
      exact Parts.distinct_foldlM hempty hp
  · split at h
    · obtain ⟨chars, -, rfl⟩ := Option.map_eq_some_iff.mp h
      exact nofun
    · exact flat_readPlain h

namespace Document

variable {document later : Document} {text rest : List Char}

theorem proper_readHeader (hp : Proper (Parts.toTable document.entries))
    (h : document.readHeader text = some (later, rest)) : Proper (Parts.toTable later.entries) := by
  unfold readHeader at h
  split at h <;> obtain ⟨⟨path, tail⟩, -, h⟩ := Option.bind_eq_some_iff.mp h <;>
    dsimp only at h <;> split at h <;> try cases h
  all_goals
    obtain ⟨opened, ho, ⟨⟩⟩ := Option.bind_eq_some_iff.mp h
    obtain ⟨name, -, ho⟩ := Option.bind_eq_some_iff.mp ho
    obtain ⟨entries, he, ⟨⟩⟩ := Option.bind_eq_some_iff.mp ho
  · exact (Parts.kept_within Parts.kept_openNext he).2 trivial hp
  · exact (Parts.kept_within Parts.kept_openTable he).2 trivial hp

theorem proper_readEntry (hp : Proper (Parts.toTable document.entries))
    (h : document.readEntry text = some (later, rest)) : Proper (Parts.toTable later.entries) := by
  obtain ⟨⟨path, tail⟩, -, h⟩ := Option.bind_eq_some_iff.mp h
  dsimp only at h
  split at h
  · obtain ⟨value, hv, h⟩ := Option.bind_eq_some_iff.mp h
    obtain ⟨inserted, hi, ⟨⟩⟩ := Option.bind_eq_some_iff.mp h
    obtain ⟨entries, he, ⟨⟩⟩ := Option.bind_eq_some_iff.mp hi
    exact (Parts.kept_within Parts.kept_insert he).2 (flat_readValue hv) hp
  · cases h

theorem proper_readLines {fuel : Nat} (hp : Proper (Parts.toTable document.entries))
    (h : document.readLines fuel text = some later) : Proper (Parts.toTable later.entries) := by
  induction fuel generalizing document text with
  | zero => cases h
  | succ fuel ih =>
    unfold readLines at h
    split at h
    · cases h
      exact hp
    · obtain ⟨rest, -, h⟩ := Option.bind_eq_some_iff.mp h
      exact ih hp h
    · exact ih hp h
    · obtain ⟨rest, -, h⟩ := Option.bind_eq_some_iff.mp h
      exact ih hp h
    · obtain ⟨⟨next, after⟩, hn, h⟩ := Option.bind_eq_some_iff.mp h
      obtain ⟨rest, -, h⟩ := Option.bind_eq_some_iff.mp h
      exact ih (proper_readHeader hp hn) h
    · obtain ⟨⟨next, after⟩, hn, h⟩ := Option.bind_eq_some_iff.mp h
      obtain ⟨rest, -, h⟩ := Option.bind_eq_some_iff.mp h
      exact ih (proper_readEntry hp hn) h

end Document

theorem proper_ofText {text : String} {table : Table} (h : ofText? text = some table) : Proper table := by
  obtain ⟨document, hd, ⟨⟩⟩ := Option.bind_eq_some_iff.mp h
  have hempty : Proper (Parts.toTable ({} : Document).entries) := ⟨.nil, nofun⟩
  exact Document.proper_readLines hempty hd

end Toml

open Toml (Table)

/-! ## Settings -/

/-- A choice with a field of its own. -/
inductive Setting where
  | blockInlineLimit
  | tailCalls
  | switchMinCases
  | callDepth
  | stackSize

namespace Setting

/-- The table of a setting and its field there. -/
def place : Setting → String × String
  | blockInlineLimit => ("compiler", "block_inline_limit")
  | tailCalls => ("compiler", "tail_calls")
  | switchMinCases => ("compiler", "int_switch_min_cases")
  | callDepth => ("vm", "max_call_depth")
  | stackSize => ("vm", "max_stack_size")

/-- What choices have at a setting. -/
def value (options : Options) : Setting → Toml
  | blockInlineLimit => .integer options.compile.blockInlineLimit
  | tailCalls => .boolean options.compile.tailCalls
  | switchMinCases => .integer options.compile.switchMinCases
  | callDepth => .integer options.limits.callDepth
  | stackSize => .integer options.limits.stackSize

end Setting

/-- The entries of a table in a table, if it is there. -/
def entriesAt (document : Table) (name : String) : Table :=
  match document.lookup name with
  | some (.table entries) => entries
  | _ => []

/-- What a document gives a setting, if it does. -/
def Setting.given? (document : Table) (setting : Setting) : Option Toml :=
  (entriesAt document setting.place.1).lookup setting.place.2

namespace Options

/-- What a document has in the places of tables are tables. -/
def HasTables (document : Table) : Prop :=
  ∀ name ∈ ["compiler", "vm"], ∀ value ∈ document.lookup name, ∃ entries, value = .table entries

/-- Choices with sizes that can be written down. -/
def Writable (options : Options) : Prop :=
  ∀ (setting : Setting) (size : Int), setting.value options = .integer size → size ≤ 9223372036854775807

variable {document : Table} {name : String} {options merged : Options}

theorem HasTables.lookup (h : HasTables document) (hn : name ∈ ["compiler", "vm"]) :
    document.lookup name = none ∧ entriesAt document name = [] ∨
      document.lookup name = some (.table (entriesAt document name)) := by
  unfold entriesAt
  cases hl : document.lookup name with
  | none => exact .inl ⟨rfl, rfl⟩
  | some value =>
    obtain ⟨entries, rfl⟩ := h name hn value hl
    exact .inr rfl

theorem HasTables.tableAt (h : HasTables document) (strict : Bool) (fields : Fields)
    (hn : name ∈ ["compiler", "vm"]) :
    tableAt strict fields document name = .ok (entriesAt document name) := by
  unfold Options.tableAt
  obtain ⟨hl, he⟩ | hl := h.lookup hn
  · rw [hl, he]
  · rw [hl]

theorem sizeAt_eq_ok {table : Table} {otherwise size : Nat} :
    sizeAt table name otherwise = .ok size ↔
      (table.lookup name).getD (.integer otherwise) = .integer size := by
  unfold sizeAt
  split
  · grind
  · grind
  · next h hl =>
    refine ⟨nofun, fun hs => ?_⟩
    rw [hl] at hs
    exact absurd hs (h size)

theorem switchAt_eq_ok {table : Table} {otherwise switch : Bool} :
    switchAt table name otherwise = .ok switch ↔
      (table.lookup name).getD (.boolean otherwise) = .boolean switch := by
  unfold switchAt
  split
  · simp [*]
  · simp [*]
  · next h hl =>
    refine ⟨nofun, fun hs => ?_⟩
    rw [hl] at hs
    exact absurd hs (h switch)

/-- A document is read as choices iff they have what it gives, and what is standard elsewhere. -/
theorem ofTable_eq_ok (h : HasTables document) (strict : Bool) :
    ofTable strict document = .ok options ↔ ∀ setting : Setting,
      setting.value options = (setting.given? document).getD (setting.value {}) := by
  have hbind {α β : Type} {x : Except ConfigurationError α} {f : α → Except ConfigurationError β}
      {b : β} : x >>= f = .ok b ↔ ∃ a, x = .ok a ∧ f a = .ok b := by
    cases x <;> simp [bind, Except.bind]
  have hc : "compiler" ∈ ["compiler", "vm"] := by simp
  have hv : "vm" ∈ ["compiler", "vm"] := by simp
  simp only [ofTable, h.tableAt strict _ hc, h.tableAt strict _ hv, hbind, compileOfTable,
    limitsOfTable, sizeAt_eq_ok, switchAt_eq_ok]
  constructor
  · rintro ⟨_, ⟨⟩, _, ⟨limit, h₁, tails, h₂, count, h₃, ⟨⟩⟩, _, ⟨⟩, _, ⟨depth, h₄, size, h₅, ⟨⟩⟩, ⟨⟩⟩ setting
    cases setting <;> exact .symm ‹_›
  · intro hs
    exact ⟨_, rfl, _, ⟨_, (hs .blockInlineLimit).symm, _, (hs .tailCalls).symm, _,
      (hs .switchMinCases).symm, rfl⟩, _, rfl, _, ⟨_, (hs .callDepth).symm, _, (hs .stackSize).symm,
      rfl⟩, rfl⟩

theorem toTable_eq_ok (h : options.Writable) : ∃ lower, options.toTable = .ok lower ∧
    (∀ name ∈ ["compiler", "vm"], ∃ entries, lower.lookup name = some (.table entries)) ∧
      ∀ setting : Setting, setting.given? lower = some (setting.value options) := by
  have hsize (setting : Setting) {size : Nat} (hs : setting.value options = .integer size)
      (name : String) : sizeEntry name size = .ok (name, .integer size) :=
    if_pos (by have := h setting size hs; omega)
  refine ⟨[("compiler", .table [("block_inline_limit", .integer options.compile.blockInlineLimit),
      ("tail_calls", .boolean options.compile.tailCalls),
      ("int_switch_min_cases", .integer options.compile.switchMinCases)]),
    ("vm", .table [("max_call_depth", .integer options.limits.callDepth),
      ("max_stack_size", .integer options.limits.stackSize)])], ?_, ?_, ?_⟩
  · simp only [toTable, compileTable, limitsTable, hsize .blockInlineLimit rfl,
      hsize .switchMinCases rfl, hsize .callDepth rfl, hsize .stackSize rfl]
    rfl
  · intro name hn
    simp only [List.mem_cons, List.not_mem_nil, or_false] at hn
    obtain rfl | rfl := hn <;> exact ⟨_, rfl⟩
  · intro setting
    cases setting <;> rfl

theorem lookup_overlay {lower : Table} (hd : Toml.Proper document) (ht : HasTables document)
    (hn : name ∈ ["compiler", "vm"]) (hl : ∃ entries, lower.lookup name = some (.table entries)) :
    (Toml.overlay lower document).lookup name =
      some (.table (Toml.extend (entriesAt lower name) (entriesAt document name))) := by
  obtain ⟨entries, hl⟩ := hl
  have he : entriesAt lower name = entries := by rw [entriesAt, hl]
  rw [Toml.lookup_overlay hd.1, hl, he]
  obtain ⟨hlook, hempty⟩ | hlook := ht.lookup hn
  · rw [hlook, hempty]
    rfl
  · rw [hlook]
    rfl

theorem distinct_entriesAt (hd : Toml.Proper document) : Toml.Distinct (entriesAt document name) := by
  unfold entriesAt
  split
  · next entries hl =>
    obtain ⟨before, after, he, -⟩ := List.lookup_eq_some_iff.mp hl
    exact hd.2 (name, .table entries) (by simp [he]) entries rfl
  · exact .nil

/-- Choices after a document was laid over them: its settings, and elsewhere those that there were. -/
theorem ofTable_overlay (hw : options.Writable) {lower : Table} (hl : options.toTable = .ok lower)
    (hp : Toml.Proper document) (ht : HasTables document) :
    ofTable true (Toml.overlay lower document) = .ok merged ↔ ∀ setting : Setting,
      setting.value merged = (setting.given? document).getD (setting.value options) := by
  obtain ⟨written, hwritten, htl, hgl⟩ := toTable_eq_ok hw
  obtain rfl : lower = written := Except.ok.inj (hl.symm.trans hwritten)
  have hover {name : String} (hn : name ∈ ["compiler", "vm"]) := lookup_overlay hp ht hn (htl name hn)
  rw [ofTable_eq_ok fun name hn value hv => ⟨_, Option.some.inj (hv.symm.trans (hover hn))⟩]
  refine forall_congr' fun setting => ?_
  have hplace : setting.place.1 ∈ ["compiler", "vm"] := by cases setting <;> simp [Setting.place]
  have hg : setting.given? (Toml.overlay lower document) =
      (setting.given? document).or (some (setting.value options)) := by
    rw [← hgl setting]
    simp only [Setting.given?]
    rw [entriesAt, hover hplace]
    exact Toml.lookup_extend (distinct_entriesAt hp) _
  rw [hg]
  cases setting.given? document <;> rfl

theorem proper_document {text : String} (h : Options.document text = .ok document) :
    Toml.Proper document := by
  unfold Options.document at h
  split at h
  · next hd => cases h; exact Toml.proper_ofText hd
  · cases h

theorem merge_eq_ok (hw : options.Writable) {text : String} (hd : Options.document text = .ok document)
    (ht : HasTables document) : options.merge text = .ok merged ↔ ∀ setting : Setting,
      setting.value merged = (setting.given? document).getD (setting.value options) := by
  obtain ⟨lower, hl, -⟩ := toTable_eq_ok hw
  have hm : options.merge text = ofTable true (Toml.overlay lower document) := by
    simp only [merge, hd, hl]
    rfl
  rw [hm, ofTable_overlay hw hl (proper_document hd) ht]

/-- Values of the right kind for a setting. -/
def Setting.Accepts : Setting → Toml → Prop
  | .tailCalls, value => ∃ switch, value = .boolean switch
  | _, value => ∃ size : Nat, value = .integer size

theorem accepts_value (options : Options) (setting : Setting) :
    Setting.Accepts setting (setting.value options) := by
  cases setting <;> exact ⟨_, rfl⟩

/-- Values are those of some choices iff they are of the right kinds. -/
theorem exists_values {values : Setting → Toml} :
    (∃ options, ∀ setting : Setting, setting.value options = values setting) ↔
      ∀ setting, Setting.Accepts setting (values setting) := by
  constructor
  · rintro ⟨options, h⟩ setting
    exact h setting ▸ accepts_value options setting
  · intro h
    obtain ⟨limit, h₁⟩ := h .blockInlineLimit
    obtain ⟨tails, h₂⟩ := h .tailCalls
    obtain ⟨count, h₃⟩ := h .switchMinCases
    obtain ⟨depth, h₄⟩ := h .callDepth
    obtain ⟨size, h₅⟩ := h .stackSize
    refine ⟨⟨⟨limit, tails, count⟩, ⟨depth, size⟩⟩, fun setting => ?_⟩
    cases setting <;> exact .symm ‹_›

/-- Whether there are choices with given values does not depend on the values elsewhere. -/
theorem exists_values_iff {given : Setting → Option Toml} :
    (∃ merged, ∀ setting : Setting, setting.value merged = (given setting).getD (setting.value options)) ↔
      ∃ loaded, ∀ setting : Setting, setting.value loaded = (given setting).getD (setting.value {}) := by
  rw [exists_values, exists_values]
  refine forall_congr' fun setting => ?_
  cases given setting with
  | none => exact iff_of_true (accepts_value options setting) (accepts_value {} setting)
  | some value => exact .rfl

/-- Choices that a file is laid over, in place. -/
def mergeIn (files : Files) (path : String) : EStateM Failure Options Unit := fun options =>
  match options.mergeFile files path with
  | .ok merged => .ok () merged
  | .error failure => .error failure options

theorem mergeIn_eq_ok {files : Files} {path text : String} (hf : files path = .ok text) :
    mergeIn files path options = .ok () merged ↔ options.merge text = .ok merged := by
  have hm : options.mergeFile files path = (options.merge text).mapError ConfigurationError.failure := by
    simp only [mergeFile, Files.text, hf]
    rfl
  unfold mergeIn
  rw [hm]
  cases options.merge text <;> simp [Except.mapError]

/-- A file with tables in the places of tables can be laid over choices iff it can be loaded. It
decides the settings that it gives and leaves the others, so that over the standard choices it comes
to what is loaded; and where it is refused, the choices are as before. -/
theorem merge_overlays (hw : options.Writable) {files : Files} {path text : String}
    (hf : files path = .ok text) (hd : Options.document text = .ok document) (ht : HasTables document) :
    ((∃ merged, mergeIn files path options = .ok () merged) ↔ ∃ loaded, load files path = .ok loaded) ∧
      (∀ merged, mergeIn files path options = .ok () merged ↔ ∀ setting : Setting,
        setting.value merged = (setting.given? document).getD (setting.value options)) ∧
      (∀ loaded, mergeIn files path {} = .ok () loaded ↔ load files path = .ok loaded) ∧
      ∀ failure left, mergeIn files path options = .error failure left → left = options := by
  have hload {loaded : Options} : load files path = .ok loaded ↔ ∀ setting : Setting,
      setting.value loaded = (setting.given? document).getD (setting.value {}) := by
    have hl : load files path = (ofText text).mapError ConfigurationError.failure := by
      simp only [load, Files.text, hf]
      rfl
    have ho : ofText text = ofTable false document := by
      simp only [ofText, hd]
      rfl
    rw [hl, ho, ← ofTable_eq_ok ht false]
    cases ofTable false document <;> simp [Except.mapError]
  have hmerge {merged : Options} : mergeIn files path options = .ok () merged ↔ ∀ setting : Setting,
      setting.value merged = (setting.given? document).getD (setting.value options) :=
    (mergeIn_eq_ok hf).trans (merge_eq_ok hw hd ht)
  have hstandard : ({} : Options).Writable := by
    intro setting size hs
    cases setting <;> simp only [Setting.value, Toml.integer.injEq, reduceCtorEq] at hs <;> omega
  refine ⟨?_, fun merged => hmerge, fun loaded => ?_, fun failure left h => ?_⟩
  · simp only [hmerge, hload]
    exact exists_values_iff
  · rw [mergeIn_eq_ok hf, merge_eq_ok hstandard hd ht, hload]
  · unfold mergeIn at h
    split at h <;> cases h
    rfl

/-- The size that a document gives, if that is all it gives: its table, its name and its value. -/
def soleSize? : Table → Option (String × String × Int)
  | [(table, .table [(name, .integer size)])] => some (table, name, size)
  | _ => none

theorem eq_of_soleSize? {table name : String} {size : Int}
    (h : soleSize? document = some (table, name, size)) :
    document = [(table, .table [(name, .integer size)])] := by
  unfold soleSize? at h
  split at h <;> cases h
  rfl

theorem document_depth : Options.document "[vm]\nmax_call_depth = 7\n" =
    .ok [("vm", .table [("max_call_depth", .integer 7)])] := by
  have h : (Options.document "[vm]\nmax_call_depth = 7\n").toOption.bind soleSize? =
      some ("vm", "max_call_depth", 7) := by
    decide +kernel
  cases hd : Options.document "[vm]\nmax_call_depth = 7\n" with
  | error error =>
    rw [hd] at h
    cases h
  | ok document =>
    rw [hd] at h
    exact congrArg Except.ok (eq_of_soleSize? h)

/-- A file that sets one of the limits. -/
theorem merge_overlays_depth : mergeIn (fun _ => .ok "[vm]\nmax_call_depth = 7\n") "engine.toml"
      { compile := { tailCalls := false } } =
        .ok () { compile := { tailCalls := false }, limits := { callDepth := 7 } } := by
  have hw : ({ compile := { tailCalls := false } } : Options).Writable := by
    intro setting size hs
    cases setting <;> simp only [Setting.value, Toml.integer.injEq, reduceCtorEq] at hs <;> omega
  have ht : HasTables [("vm", .table [("max_call_depth", .integer 7)])] := by
    intro name hn value hv
    simp only [List.mem_cons, List.not_mem_nil, or_false] at hn
    obtain rfl | rfl := hn
    · cases hv
    · exact ⟨_, (Option.some.inj hv).symm⟩
  let files : Files := fun _ => .ok "[vm]\nmax_call_depth = 7\n"
  have hf : files "engine.toml" = .ok "[vm]\nmax_call_depth = 7\n" := rfl
  have h := merge_overlays hw hf document_depth ht
  refine (h.2.1 _).mpr fun setting => ?_
  cases setting <;> rfl

end Options
end Ecma
