import GoEnum.Proofs.Package.Lines
import Mathlib.Data.List.Flatten

namespace GoEnum

open Constant Syntax
open Token (Spanned)

namespace Constant

structure Scope.Agrees (s s' : Scope) : Prop where
  find? : ∀ name, s.find? name = s'.find? name
  types : s.types = s'.types

namespace Scope.Agrees

variable {s s' : Scope}

theorem defines (h : s.Agrees s') (name : String) : s.defines name = s'.defines name := by
  rw [Scope.defines, Scope.defines, h.find?]

theorem callee (h : s.Agrees s') (e : Expr) : s.callee e = s'.callee e := by
  unfold Scope.callee
  rw [h.types]
  simp only [h.defines]

section

variable {m : Type → Type} [Monad m] [MonadExceptOf EvalError m]

theorem evalExpr (h : s.Agrees s') (constant : String → m Const) (iota : Nat) (e : Expr) :
    evalExpr s constant iota e = evalExpr s' constant iota e := by
  induction e using evalInduction s with
  | literal span v => rfl
  | constant span name hd => rw [evalExpr_constant hd, evalExpr_constant (h.defines name ▸ hd)]
  | predeclared span name hd =>
    rw [evalExpr_predeclared hd, evalExpr_predeclared (h.defines name ▸ hd), h.types]
  | paren span e ih => exact ih
  | selector span base field => rfl
  | call span callee arg hf ih =>
    rw [evalExpr_call hf, evalExpr_call (h.callee callee ▸ hf), ih, h.types, h.callee]
  | notFunction span callee arg what hf =>
    rw [evalExpr_notFunction hf, evalExpr_notFunction (h.callee callee ▸ hf)]
  | wrongCount span callee args hn =>
    rw [evalExpr_wrongCount hn, evalExpr_wrongCount hn, h.callee]
  | unary span op e ih => rw [Constant.evalExpr, Constant.evalExpr, ih, h.types]
  | binary span op l r ihl ihr => rw [Constant.evalExpr, Constant.evalExpr, ihl, ihr, h.types]
  | type span t => rfl

theorem evalDef (h : s.Agrees s') (constant : String → m Const) (d : ConstDef) :
    evalDef s constant d = evalDef s' constant d := by
  rw [Constant.evalDef, Constant.evalDef, h.evalExpr, h.types]

end

theorem unfoldWithin (h : s.Agrees s') (n : Nat) (name : String) :
    unfoldWithin s n name = unfoldWithin s' n name := by
  induction n generalizing name with
  | zero => rfl
  | succ n ih =>
    rw [Constant.unfoldWithin, Constant.unfoldWithin, h.find?, funext ih]
    simp only [h.evalDef]

theorem unfoldsTo_iff (h : s.Agrees s') (name : String) (r : Except EvalError Const) :
    UnfoldsTo s name r ↔ UnfoldsTo s' name r := by
  simp only [UnfoldsTo, h.unfoldWithin]

end Scope.Agrees

end Constant

namespace Package

/-- Tables in which the same is declared under each name. The number of declarations bounds how far
chains of names are followed. -/
structure TypeTable.Agrees (t t' : TypeTable) : Prop where
  find? : ∀ name, t.find? name = t'.find? name
  length : t.decls.length = t'.decls.length

namespace TypeTable.Agrees

variable {t t' : TypeTable}

theorem refl (t : TypeTable) : t.Agrees t := ⟨fun _ => rfl, rfl⟩

theorem basicWithin (h : t.Agrees t') (n : Nat) (name : String) :
    t.basicWithin n name = t'.basicWithin n name := by
  induction n generalizing name with
  | zero => rfl
  | succ n ih => rw [TypeTable.basicWithin, TypeTable.basicWithin, h.find?, funext ih]

theorem basic? (h : t.Agrees t') (name : String) : t.basic? name = t'.basic? name := by
  rw [TypeTable.basic?, TypeTable.basic?, h.length, h.basicWithin]

theorem aliasWithin (h : t.Agrees t') (n : Nat) (seen : List String) (name : String) :
    t.aliasWithin n seen name = t'.aliasWithin n seen name := by
  induction n generalizing seen name with
  | zero => rfl
  | succ n ih =>
    rw [TypeTable.aliasWithin, TypeTable.aliasWithin, h.find?]
    simp only [ih]

theorem resolveAlias (h : t.Agrees t') (name : String) :
    t.resolveAlias name = t'.resolveAlias name := by
  rw [TypeTable.resolveAlias, TypeTable.resolveAlias, h.length, h.aliasWithin]

theorem scope (h : t.Agrees t') : t.scope = t'.scope := by
  have htype : t.isType = t'.isType := funext fun name => by
    rw [TypeTable.isType, TypeTable.isType, h.find?]
  rw [TypeTable.scope, TypeTable.scope, htype, funext h.basic?]

end TypeTable.Agrees

theorem TypeTable.resolveAlias_eq_self {t : TypeTable} {name : String}
    (h : ∀ d ∈ t.find? name, d.isAlias = false) : t.resolveAlias name = name := by
  rw [TypeTable.resolveAlias, TypeTable.aliasWithin]
  cases hd : t.find? name with
  | none => rfl
  | some d =>
    dsimp only
    split
    · simp [h d hd]
    · rfl

/-- Symbols that tell the same about types and constants. They may differ in the receivers that
methods have. -/
structure Symbols.Agrees (s s' : Symbols) : Prop where
  types : s.types.Agrees s'.types
  constant? : ∀ name, s.constant? name = s'.constant? name
  isStringer : ∀ type, s.isStringer type = s'.isStringer type

theorem Symbols.Agrees.refl (s : Symbols) : s.Agrees s :=
  ⟨.refl s.types, fun _ => rfl, fun _ => rfl⟩

theorem Symbols.Agrees.basicOf? {s s' : Symbols} (h : s.Agrees s') (c : Const) :
    s.basicOf? c = s'.basicOf? c := by
  unfold Symbols.basicOf?
  simp only [h.types.basic?]

def typeSpecs (f : File) : List TypeSpec :=
  f.decls.flatMap fun d =>
    match d.node with
    | .type specs => specs.map (·.node)
    | _ => []

def DistinctTypes (files : List File) : Prop :=
  (((files.flatMap typeSpecs).map (·.name.node)).filter (· ≠ blankName)).Nodup

def SingleReceivers (files : List File) : Prop :=
  ∀ m ∈ Method.ofFiles files, ∀ n ∈ Method.ofFiles files, m.1 = n.1 →
    ∀ x ∈ m.2.receiver, ∀ y ∈ n.2.receiver, x = y

instance (files : List File) : Decidable (DistinctTypes files) :=
  inferInstanceAs (Decidable (List.Nodup _))

instance (files : List File) : Decidable (SingleReceivers files) :=
  inferInstanceAs (Decidable (∀ m ∈ _, ∀ n ∈ _, _))

section

variable {files files' : List File} {name : String}

theorem constant?_eq_some_iff : (Symbols.ofFiles files).constant? name = some c ↔
    UnfoldsTo ⟨constDefs files, (TypeTable.ofFiles files).scope⟩ name (.ok c) := by
  refine ⟨unfoldsTo_of_constant?, fun h => ?_⟩
  have hname : name ∈ (Symbols.ofFiles files).constants.map (·.1) := by
    rw [(constants_meet files).1, ← defines_iff ⟨constDefs files, (TypeTable.ofFiles files).scope⟩]
    by_contra hundefined
    obtain ⟨n, hn⟩ := h
    cases n with
    | zero => cases hn
    | succ n =>
      rw [unfoldWithin, Option.not_isSome_iff_eq_none.1 hundefined] at hn
      cases hn
  cases hlookup : (Symbols.ofFiles files).constants.lookup name with
  | none =>
    obtain ⟨entry, hentry, rfl⟩ := List.mem_map.1 hname
    simpa using List.lookup_eq_none_iff.1 hlookup entry hentry
  | some r =>
    obtain ⟨before, after, heq, -⟩ := List.lookup_eq_some_iff.1 hlookup
    have hmem : (name, r) ∈ (Symbols.ofFiles files).constants := by simp [heq]
    obtain ⟨n, hn⟩ := h
    obtain ⟨k, hk⟩ := ((constants_meet files).2 _ hmem).unfoldsTo (UnfoldsTo.not_endless ⟨n, hn⟩)
    obtain rfl := settled_unique (fun n => unfoldWithin_refines _ n name) hk hn
    rw [Symbols.constant?, hlookup]

theorem constant?_congr (hdefs : ∀ name, (constDefs files).find? (fun d => d.name == name) =
      (constDefs files').find? (fun d => d.name == name))
    (htypes : (TypeTable.ofFiles files).Agrees (TypeTable.ofFiles files')) (name : String) :
    (Symbols.ofFiles files).constant? name = (Symbols.ofFiles files').constant? name := by
  have hscope : Scope.Agrees ⟨constDefs files, (TypeTable.ofFiles files).scope⟩
      ⟨constDefs files', (TypeTable.ofFiles files').scope⟩ := ⟨hdefs, htypes.scope⟩
  refine Option.ext fun c => ?_
  rw [constant?_eq_some_iff, constant?_eq_some_iff, hscope.unfoldsTo_iff]

theorem names_defs (i : Initializer) (s : ConstSpec) : List.Sublist ((i.defs s).map (·.name))
    ((s.names.map (·.node)).filter (· ≠ blankName)) := by
  unfold Initializer.defs
  generalize i.values = values
  induction s.names generalizing values with
  | nil => simp
  | cons name names ih =>
    cases values with
    | nil => simp
    | cons value values =>
      by_cases hblank : name.node = blankName
      · simpa [hblank] using ih values
      · simpa [hblank] using ih values

theorem Line.names_defs (l : Line) :
    List.Sublist (l.defs.map (·.name)) (l.names.filter (· ≠ blankName)) := by
  unfold Line.defs Line.names
  cases l.governing with
  | none => simp
  | some i => exact Package.names_defs i l.spec

def allDefs (files : List File) : List ConstDef :=
  files.flatMap fun f => (constDecls f).flatMap ConstDecl.defs

theorem DistinctConstants.nodup_allDefs (h : DistinctConstants files) :
    ((allDefs files).map (·.name)).Nodup := by
  have hdefs : allDefs files = (lines files).flatMap Line.defs := by
    have hdecl : ConstDecl.defs = fun d => (linesAfter none d.specs).flatMap Line.defs :=
      funext fun d => specDefs_eq none d.specs
    simp only [allDefs, lines, hdecl, List.flatMap_assoc]
  rw [DistinctConstants, ← names_lines, List.filter_flatMap] at h
  rw [hdefs, List.map_flatMap]
  exact h.sublist (List.Sublist.flatMap_right _ fun l _ => l.names_defs)

def allTypes (files : List File) : List TypeDecl :=
  ((files.flatMap typeSpecs).map fun s =>
    ⟨s.name.node, s.type.node, s.isAlias, s.isGeneric⟩).filter (·.name != blankName)

theorem decls_ofFiles (files : List File) :
    (TypeTable.ofFiles files).decls = distinctBy TypeDecl.name (allTypes files) := rfl

theorem DistinctTypes.nodup_allTypes (h : DistinctTypes files) :
    ((allTypes files).map (·.name)).Nodup := by
  have hnames : (allTypes files).map (·.name) =
      ((files.flatMap typeSpecs).map (·.name.node)).filter (· ≠ blankName) := by
    simp only [allTypes, List.filter_map, List.map_map, Function.comp_def, ne_eq, decide_not]
    rfl
  rw [hnames]
  exact h

theorem isStringer_iff {s : Symbols} {type : String} :
    s.isStringer type = true ↔ ∃ m, (type, m) ∈ s.methods ∧ m.isStringer = true := by
  simp [Symbols.isStringer, mem_methodsOf]

theorem agrees_of_perm (h : files.Perm files') (htypes : DistinctTypes files)
    (hconsts : DistinctConstants files) :
    (Symbols.ofFiles files).Agrees (Symbols.ofFiles files') := by
  have htypes' : (TypeTable.ofFiles files).Agrees (TypeTable.ofFiles files') := by
    have hperm : (allTypes files).Perm (allTypes files') :=
      ((h.flatMap_right typeSpecs).map _).filter _
    have hnodup := htypes.nodup_allTypes
    refine ⟨fun name => find?_distinctBy_of_perm hperm hnodup name, ?_⟩
    rw [decls_ofFiles, decls_ofFiles, distinctBy_eq_self hnodup,
      distinctBy_eq_self ((hperm.map _).nodup_iff.1 hnodup), hperm.length_eq]
  refine ⟨htypes', constant?_congr (fun name => ?_) htypes', fun type => ?_⟩
  · exact find?_distinctBy_of_perm (h.flatMap_right _) hconsts.nodup_allDefs name
  · have hmethods : (Method.ofFiles files).Perm (Method.ofFiles files') := h.flatMap_right _
    rw [Bool.eq_iff_iff, isStringer_iff, isStringer_iff]
    exact exists_congr fun m => and_congr_left fun _ => hmethods.mem_iff

theorem head?_of_perm {xs ys : List α} (h : xs.Perm ys) (hall : ∀ x ∈ xs, ∀ y ∈ xs, x = y) :
    xs.head? = ys.head? := by
  cases xs with
  | nil => rw [h.nil_eq]
  | cons x xs =>
    cases ys with
    | nil => exact absurd h.eq_nil (by simp)
    | cons y ys =>
      exact congrArg some (hall x List.mem_cons_self y (h.mem_iff.2 List.mem_cons_self))

theorem exists_method_of_receiver {s : Symbols} {type : String}
    (h : x ∈ (s.methodsOf type).filterMap fun m => m.receiver.filter (· != "")) :
    ∃ m, (type, m) ∈ s.methods ∧ x ∈ m.receiver := by
  obtain ⟨m, hm, hx⟩ := List.mem_filterMap.1 h
  exact ⟨m, mem_methodsOf.1 hm, (Option.filter_eq_some_iff.1 hx).1⟩

theorem receiverHint?_of_perm (h : files.Perm files') (hsingle : SingleReceivers files)
    (type : String) :
    (Symbols.ofFiles files).receiverHint? type = (Symbols.ofFiles files').receiverHint? type := by
  have hmethods : (Method.ofFiles files).Perm (Method.ofFiles files') := h.flatMap_right _
  rw [Symbols.receiverHint?, Symbols.receiverHint?, ← List.head?_filterMap, ← List.head?_filterMap]
  refine head?_of_perm ((hmethods.filterMap _).filterMap _) fun x hx y hy => ?_
  obtain ⟨m, hm, hmx⟩ := exists_method_of_receiver hx
  obtain ⟨n, hn, hny⟩ := exists_method_of_receiver hy
  exact hsingle _ hm _ hn rfl x hmx y hny

theorem methods_append (l₁ l₂ : List File) :
    Method.ofFiles (l₁ ++ l₂) = Method.ofFiles l₁ ++ Method.ofFiles l₂ := List.flatMap_append

theorem methods_insert (l₁ l₂ : List File) (f : File) : Method.ofFiles (l₁ ++ f :: l₂) =
    Method.ofFiles l₁ ++ (Method.ofFiles [f] ++ Method.ofFiles l₂) := by
  simp [Method.ofFiles]

/-- A further file with nothing but methods changes nothing about types and constants, unless it
gives a type a text. -/
theorem agrees_insert (l₁ l₂ : List File) {f : File} (htypes : typeSpecs f = [])
    (hconsts : constDecls f = []) (hmethods : ∀ m ∈ Method.ofFiles [f], m.2.isStringer = false) :
    (Symbols.ofFiles (l₁ ++ l₂)).Agrees (Symbols.ofFiles (l₁ ++ f :: l₂)) := by
  have hspecs : (l₁ ++ f :: l₂).flatMap typeSpecs = (l₁ ++ l₂).flatMap typeSpecs := by
    simp [htypes]
  have htypes' : TypeTable.ofFiles (l₁ ++ l₂) = TypeTable.ofFiles (l₁ ++ f :: l₂) := by
    change TypeTable.mk (distinctBy _ (allTypes (l₁ ++ l₂))) = .mk (distinctBy _ (allTypes _))
    rw [allTypes, allTypes, hspecs]
  have hdefs : constDefs (l₁ ++ l₂) = constDefs (l₁ ++ f :: l₂) := by
    simp [constDefs, hconsts]
  have hagrees : (TypeTable.ofFiles (l₁ ++ l₂)).Agrees (TypeTable.ofFiles (l₁ ++ f :: l₂)) := by
    rw [htypes']
    exact .refl _
  refine ⟨hagrees, constant?_congr (fun name => by rw [hdefs]) hagrees, fun type => ?_⟩
  rw [Bool.eq_iff_iff, isStringer_iff, isStringer_iff]
  refine exists_congr fun m => and_congr_left fun hm => ?_
  have hnew : (type, m) ∉ Method.ofFiles [f] := by
    intro hmem
    rw [hmethods _ hmem] at hm
    cases hm
  dsimp only [Symbols.ofFiles]
  rw [methods_append, methods_insert]
  simp [hnew]

theorem findSome?_insert {g : α → Option β} (xs zs : List α) {ys : List α}
    (h : ∀ y ∈ ys, ∀ b ∈ g y, b = a) :
    (xs ++ (ys ++ zs)).findSome? g = (xs ++ zs).findSome? g ∨
      (xs ++ (ys ++ zs)).findSome? g = some a := by
  rw [List.findSome?_append, List.findSome?_append, List.findSome?_append]
  cases xs.findSome? g with
  | some b => exact .inl rfl
  | none =>
    cases hys : ys.findSome? g with
    | none => exact .inl rfl
    | some b =>
      obtain ⟨y, hy, hb⟩ := List.exists_of_findSome?_eq_some hys
      obtain rfl := h y hy b hb
      exact .inr rfl

theorem receiverHint?_insert (l₁ l₂ : List File) {f : File} {type : String}
    (hmethods : ∀ m, (type, m) ∈ Method.ofFiles [f] → ∀ x ∈ m.receiver, x = name) :
    let hint := (Symbols.ofFiles (l₁ ++ f :: l₂)).receiverHint? type
    hint = (Symbols.ofFiles (l₁ ++ l₂)).receiverHint? type ∨ hint = some name := by
  dsimp only [Symbols.receiverHint?, Symbols.methodsOf, Symbols.ofFiles]
  rw [methods_insert, methods_append, List.filterMap_append, List.filterMap_append,
    List.filterMap_append]
  refine findSome?_insert _ _ fun m hm x hx => ?_
  have hmem : (type, m) ∈ Method.ofFiles [f] := by simpa using hm
  exact hmethods m hmem x (Option.filter_eq_some_iff.1 hx).1

end

end Package

end GoEnum
