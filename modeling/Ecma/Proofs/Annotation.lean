/-
Annotations of trees: changed twice, they are changed once.
-/
import Mathlib.Logic.Basic
import Ecma.Syntax.Relabel

namespace Ecma.Syntax

variable {σ τ υ : Type} (g : τ → υ) (f : σ → τ)

mutual

theorem Expr.map_map : (v : Expr σ) → (v.map f).map g = v.map (g ∘ f)
  | .identifier _ | .literal _ | .this => rfl
  | .template _ expressions => congrArg _ (mapExprs_map expressions)
  | .array elements => congrArg _ (mapElements_map elements)
  | .object properties => congrArg _ (mapProperties_map properties)
  | .function fn | .arrow fn => congrArg _ fn.map_map
  | .unary _ arg | .update _ _ arg => congrArg _ arg.map_map
  | .binary _ left right | .logical _ left right => congrArg₂ _ left.map_map right.map_map
  | .assign _ target v => congrArg₂ _ target.map_map v.map_map
  | .conditional test consequent alternate => by
    rw [Expr.map, Expr.map, test.map_map, consequent.map_map, alternate.map_map, Expr.map]
  | .call callee args | .new callee args => congrArg₂ _ callee.map_map (mapExprs_map args)
  | .member obj prop _ =>
    congrArg₂ (Expr.member · · _) obj.map_map prop.map_map
  | .sequence expressions => congrArg _ (mapExprs_map expressions)
  | .yield arg _ => congrArg (Expr.yield · _) (mapExpr?_map arg)
  | .await arg => congrArg _ arg.map_map

theorem mapExpr?_map : (v : Option (Expr σ)) → mapExpr? g (mapExpr? f v) = mapExpr? (g ∘ f) v
  | none => rfl
  | some v => congrArg _ v.map_map

theorem mapExprs_map : (vs : List (Expr σ)) → mapExprs g (mapExprs f vs) = mapExprs (g ∘ f) vs
  | [] => rfl
  | v :: rest => congrArg₂ _ v.map_map (mapExprs_map rest)

theorem mapElements_map : (elements : List (Option (Expr σ))) →
    mapElements g (mapElements f elements) = mapElements (g ∘ f) elements
  | [] => rfl
  | element :: rest => congrArg₂ _ (mapExpr?_map element) (mapElements_map rest)

theorem mapProperties_map : (properties : List (Property σ)) →
    mapProperties g (mapProperties f properties) = mapProperties (g ∘ f) properties
  | [] => rfl
  | ⟨key, v, _⟩ :: rest =>
    congrArg₂ _ (congrArg₂ (Property.mk · · _) key.map_map v.map_map) (mapProperties_map rest)

theorem Func.map_map : (fn : Func σ) → (fn.map f).map g = fn.map (g ∘ f)
  | ⟨_, _, _, body, _, _⟩ => congrArg (Func.mk _ _ _ · _ _) body.map_map

theorem Body.map_map : (body : Body σ) → (body.map f).map g = body.map (g ∘ f)
  | .block body => congrArg _ (mapStmts_map body)
  | .expression v => congrArg _ v.map_map

theorem mapDeclarators_map : (declarators : List (Declarator σ)) →
    mapDeclarators g (mapDeclarators f declarators) = mapDeclarators (g ∘ f) declarators
  | [] => rfl
  | ⟨_, init⟩ :: rest => congrArg₂ _ (congrArg _ (mapExpr?_map init)) (mapDeclarators_map rest)

theorem Declaration.map_map : (decl : Declaration σ) → (decl.map f).map g = decl.map (g ∘ f)
  | ⟨_, declarators⟩ => congrArg _ (mapDeclarators_map declarators)

theorem Block.map_map : (block : Block σ) → (block.map f).map g = block.map (g ∘ f)
  | ⟨_, body⟩ => congrArg _ (mapStmts_map body)

theorem mapBlock?_map : (block : Option (Block σ)) →
    mapBlock? g (mapBlock? f block) = mapBlock? (g ∘ f) block
  | none => rfl
  | some block => congrArg _ block.map_map

theorem mapCases_map : (cases : List (Case σ)) →
    mapCases g (mapCases f cases) = mapCases (g ∘ f) cases
  | [] => rfl
  | ⟨test, consequent⟩ :: rest =>
    congrArg₂ _ (congrArg₂ _ (mapExpr?_map test) (mapStmts_map consequent)) (mapCases_map rest)

theorem mapCatch?_map : (clause : Option (Catch σ)) →
    mapCatch? g (mapCatch? f clause) = mapCatch? (g ∘ f) clause
  | none => rfl
  | some ⟨_, _, body⟩ => congrArg (fun body => some (Catch.mk _ _ body)) body.map_map

theorem Head.map_map : (head : Head σ) → (head.map f).map g = head.map (g ∘ f)
  | .declaration decl => congrArg _ decl.map_map
  | .expression v => congrArg _ v.map_map

theorem mapHead?_map : (head : Option (Head σ)) →
    mapHead? g (mapHead? f head) = mapHead? (g ∘ f) head
  | none => rfl
  | some head => congrArg _ head.map_map

theorem Stmt.map_map : (stmt : Stmt σ) → (stmt.map f).map g = stmt.map (g ∘ f)
  | .declare decl => congrArg _ decl.map_map
  | .function fn => congrArg _ fn.map_map
  | .expression v => congrArg _ v.map_map
  | .block block => congrArg _ block.map_map
  | .ifElse test consequent alternate => by
    rw [Stmt.map, Stmt.map, test.map_map, consequent.map_map, mapStmt?_map, Stmt.map]
  | .switchOn _ discriminant cases =>
    congrArg₂ _ discriminant.map_map (mapCases_map cases)
  | .whileDo test body => congrArg₂ _ test.map_map body.map_map
  | .doWhile body test => congrArg₂ _ body.map_map test.map_map
  | .forLoop _ init test update body => by
    rw [Stmt.map, Stmt.map, mapHead?_map, mapExpr?_map, mapExpr?_map, body.map_map, Stmt.map]
    rfl
  | .forIn _ left right body | .forOf _ left right body => by
    rw [Stmt.map, Stmt.map, left.map_map, right.map_map, body.map_map, Stmt.map]
    rfl
  | .returnValue arg => congrArg _ (mapExpr?_map arg)
  | .breakTo _ | .continueTo _ | .debugger | .empty => rfl
  | .throwValue arg => congrArg _ arg.map_map
  | .tryBlock block handler finalizer => by
    rw [Stmt.map, Stmt.map, block.map_map, mapCatch?_map, mapBlock?_map, Stmt.map]
  | .withObject _ obj body => congrArg₂ _ obj.map_map body.map_map
  | .labelled _ body => congrArg _ body.map_map

theorem mapStmt?_map : (stmt : Option (Stmt σ)) →
    mapStmt? g (mapStmt? f stmt) = mapStmt? (g ∘ f) stmt
  | none => rfl
  | some stmt => congrArg _ stmt.map_map

theorem mapStmts_map : (statements : List (Stmt σ)) →
    mapStmts g (mapStmts f statements) = mapStmts (g ∘ f) statements
  | [] => rfl
  | stmt :: rest => congrArg₂ _ stmt.map_map (mapStmts_map rest)

end

end Ecma.Syntax
