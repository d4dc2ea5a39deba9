import GoEnum.Token.Lexer

namespace GoEnum.Token

def TokenKind.isLiteral : TokenKind → Bool
  | .int _ | .float _ | .imaginary _ | .rune _ | .string _ => true
  | _ => false

inductive Lexeme.Literal : Lexeme → Prop
  | fault : l.form = .gap → l.faults ≠ [] → Literal l
  | token : l.form = .token k → k.isLiteral → Literal l

open Lexeme (Literal)

theorem literal_fault (cause : LexCause) (length : Nat) : Literal (.fault cause length) :=
  .fault rfl (List.cons_ne_nil _ _)

theorem literal_token (h : k.isLiteral) (length : Nat) : Literal (.token k length) := .token rfl h

theorem literal_prefixedInt (radix : Nat) (cs : List Char) : Literal (prefixedInt radix cs) := by
  unfold prefixedInt
  dsimp only
  split
  · exact literal_fault _ _
  · split
    · exact literal_fault _ _
    · split
      · exact literal_fault _ _
      · split
        · exact literal_token rfl _
        · exact literal_fault _ _

theorem literal_decimalNumber (c : Char) (cs : List Char) : Literal (decimalNumber c cs) := by
  unfold decimalNumber
  dsimp only
  repeat' split
  all_goals first | exact literal_fault _ _ | exact literal_token rfl _

theorem literal_number (c : Char) (cs : List Char) : Literal (number c cs) := by
  unfold number
  split
  · split
    · exact literal_prefixedInt _ _
    · exact literal_decimalNumber _ _
  · exact literal_decimalNumber _ _

theorem literal_closedString (length : Nat) (bytes : List UInt8) (faults : List Fault) :
    Literal (closedString length bytes faults) := by
  unfold closedString
  split
  · split
    · exact literal_token rfl _
    · exact literal_fault _ _
  · rename_i hfaults
    exact .fault rfl (mt List.isEmpty_iff.2 hfaults)

theorem literal_stringRest (length : Nat) (bytes : List UInt8) (faults : List Fault)
    (cs : List Char) : Literal (stringRest length bytes faults cs) := by
  fun_induction stringRest with
  | case1 => exact .fault rfl (by simp)
  | case2 => exact .fault rfl (by simp)
  | case3 => exact literal_closedString _ _ _
  | case4 => assumption
  | case5 => assumption
  | case6 => assumption

theorem literal_rawString (cs : List Char) : Literal (rawString cs) := by
  unfold rawString
  dsimp only
  split
  · exact literal_token rfl _
  · exact literal_fault _ _

theorem literal_closeRune (value : Char) (length : Nat) (cs : List Char) :
    Literal (closeRune value length cs) := by
  unfold closeRune
  split
  · exact literal_token rfl _
  · exact .fault rfl (List.cons_ne_nil _ _)

theorem literal_runeLiteral (cs : List Char) : Literal (runeLiteral cs) := by
  unfold runeLiteral
  split
  · exact literal_fault _ _
  · split
    · exact literal_fault _ _
    · split
      · exact literal_fault _ _
      · split
        · dsimp only
          split
          · exact literal_closeRune _ _ _
          · exact literal_fault _ _
        · exact literal_closeRune _ _ _

end GoEnum.Token
