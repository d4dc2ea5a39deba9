import GoEnum.Proofs.Constant.Fitting
import GoEnum.Proofs.Enum.Discovery
import GoEnum.Proofs.Enum.Literal
import GoEnum.Proofs.Enum.Reduction
import GoEnum.Proofs.Text.Case

namespace GoEnum.Enum

open Constant Package Syntax

section

variable {dir : Disk.Path} {sources : List Source} {p : Package} {type : String} {m : Member}

theorem isIdentifier_of_governed (hp : ofSources dir sources = .ok p) {l : Line}
    (hl : l ∈ lines p.files) (h : l.governing.bind governed = some type) :
    Token.isIdentifier type := by
  obtain ⟨f, hf, hl⟩ := List.mem_flatMap.1 hl
  obtain ⟨d, hd, hl⟩ := List.mem_flatMap.1 hl
  obtain ⟨text, tokens, hlex, hread⟩ := readFrom_of_ofSources hp hf hd
  obtain ⟨i, hi, hgoverned⟩ := Option.bind_eq_some_iff.1 h
  obtain hnone | ⟨spec, hspec, rfl⟩ := exists_spec_of_governing hl hi
  · cases hnone
  refine Token.isIdentifier_of_lex hlex ?_
  unfold governed at hgoverned
  cases htype : spec.node.type with
  | some t =>
    rw [htype] at hgoverned
    exact (hread spec hspec).type t htype type hgoverned
  | none =>
    cases hvalues : spec.node.values with
    | nil =>
      rw [htype, hvalues] at hgoverned
      cases hgoverned
    | cons v vs =>
      rw [htype, hvalues] at hgoverned
      exact (hread spec hspec).called v (hvalues ▸ List.mem_cons_self) type hgoverned

theorem class_of_basicOf? {s : Symbols} {c : Const} (hc : c.WellTyped s.types.scope)
    (hb : s.basicOf? c = some b) : c.value.class = b.class := by
  unfold Const.WellTyped at hc
  unfold Symbols.basicOf? at hb
  cases htype : c.type with
  | untyped kind =>
    rw [htype] at hc hb
    cases hb
    rw [hc]
    cases kind <;> rfl
  | typed name =>
    rw [htype] at hc hb
    obtain ⟨b', hb', hv⟩ := hc
    obtain rfl : b' = b := Option.some.inj (hb'.symm.trans hb)
    exact hv.class

theorem holds_of_kindOf? (hclass : v.class = b.class) (h : kindOf? v b = some kind) :
    kind.Holds v := by
  have hint : b.isInteger → ∃ n, v = .int n := by
    intro hinteger
    rw [beq_iff_eq.1 hinteger] at hclass
    cases v <;> first | exact ⟨_, rfl⟩ | cases hclass
  unfold kindOf? at h
  split at h
  · split at h
    · cases h
      exact ⟨_, rfl⟩
    · cases h
  · split at h
    · rename_i hinteger
      cases h
      split
      · exact hint hinteger
      · exact hint hinteger
    · cases h

structure Member.Writable (m : Member) : Prop where
  name : Token.isIdentifier m.name
  value : ∃ v, m.kind.Holds v ∧ m.literal = v.literal ∧ v.Fits

theorem writable_of_collect (hp : ofSources dir sources = .ok p) (h : collect p type = .ok r)
    (hm : m ∈ r.values) : Token.isIdentifier type ∧ m.Writable := by
  obtain ⟨l, hl, hgoverned, hname, -, hresolve⟩ := exists_line_of_collect hp h hm
  obtain ⟨-, c, b, hc, hb, hkind, hliteral, -⟩ := resolve_ok hresolve
  have hsymbols := (ofSources_ok hp).1
  rw [hsymbols] at hc hb
  have heval := evaluatesName_of_constant? hc
  have hclass := class_of_basicOf? heval.admits.wellTyped hb
  exact ⟨isIdentifier_of_governed hp hl hgoverned, isIdentifier_of_mem_lines hp hl hname,
    c.value, holds_of_kindOf? hclass hkind, hliteral, heval.fits⟩

theorem isIdentifier_defaultReceiver (h : Token.isIdentifier type)
    (hdotted : defaultReceiver type ≠ "i\u0307") : Token.isIdentifier (defaultReceiver type) := by
  obtain ⟨c, cs, hs, hc, -⟩ := Token.exists_cons_of_isIdentifier h
  have hdefault : defaultReceiver type = String.ofList (Text.lowerChar c) := by
    rw [defaultReceiver, hs]
  rw [hdefault] at hdotted ⊢
  obtain ⟨d, hd, hstart⟩ : ∃ d, Text.lowerChar c = [d] ∧ Token.isIdentStart d := by
    obtain hletter | hblank := Bool.or_eq_true_iff.1 hc
    · have hne : c ≠ 'İ' := by
        rintro rfl
        exact hdotted rfl
      obtain ⟨d, hd, hletter'⟩ := Text.isLetter_lowerChar hletter hne
      exact ⟨d, hd, by simp [Token.isIdentStart, hletter']⟩
    · obtain rfl := beq_iff_eq.1 hblank
      exact ⟨'_', by decide, by decide⟩
  rw [hd, Token.isIdentifier, String.toList_ofList]
  simp [hstart, Token.ofSpelling?_singleton d]

/-- A receiver is an identifier, unless it is the lower case of a capital I with a dot, which is
not one letter. -/
theorem isIdentifier_receiver {members : Members} {r : Reduced}
    (hp : ofSources dir sources = .ok p) (hmembers : collect p type = .ok members)
    (hreduce : reduce type members.values policy = .ok r) (hdotted : r.receiver ≠ "i\u0307") :
    Token.isIdentifier r.receiver := by
  obtain ⟨m, hm, hreceiver⟩ := exists_receiver_of_reduce hreduce
  obtain ⟨l, hl, hgoverned, -, -, hresolve⟩ := exists_line_of_collect hp hmembers hm
  obtain ⟨-, c, b, -, -, -, -, -, hhint⟩ := resolve_ok hresolve
  rw [hreceiver] at hdotted ⊢
  split at hdotted
  · rename_i hnone
    rw [if_pos hnone]
    exact isIdentifier_defaultReceiver (isIdentifier_of_governed hp hl hgoverned) hdotted
  · rename_i hnamed
    rw [if_neg hnamed]
    generalize (c.type.name?.map p.symbols.types.resolveAlias).getD type = named at hhint
    cases hname : p.symbols.receiverHint? named with
    | none =>
      rw [hname] at hhint
      exact absurd hhint hnamed
    | some name =>
      rw [hname, Option.getD_some] at hhint
      exact hhint ▸ isIdentifier_of_receiverHint? hp hname

end

end GoEnum.Enum
