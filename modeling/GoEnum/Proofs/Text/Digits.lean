import GoEnum.Text.Quoted
import Mathlib.Tactic.IntervalCases

namespace GoEnum.Text

theorem digit?_digitChar (hb : b ≤ 16) (h : d < b) : digit? b (Nat.digitChar d) = some d := by
  have hd : d < 16 := by omega
  interval_cases d <;> simp [digit?, Nat.digitChar] <;> omega

theorem ofDigits_append (b : Nat) (ds : List Nat) (d : Nat) :
    ofDigits b (ds ++ [d]) = ofDigits b ds * b + d := by
  simp [ofDigits]

theorem ofDigits_zeros (b k : Nat) (ds : List Nat) :
    ofDigits b (List.replicate k 0 ++ ds) = ofDigits b ds := by
  induction k with
  | zero => rfl
  | succ k ih => simpa [ofDigits, List.replicate_succ] using ih

def DigitsOf (b : Nat) (cs : List Char) (ds : List Nat) : Prop :=
  cs.map (digit? b) = ds.map some

namespace DigitsOf

theorem length (h : DigitsOf b cs ds) : ds.length = cs.length := by
  simpa using (congrArg List.length h).symm

theorem isSome (h : DigitsOf b cs ds) (c : Char) (hc : c ∈ cs) : (digit? b c).isSome := by
  have hmem : digit? b c ∈ ds.map some := h ▸ List.mem_map_of_mem hc
  obtain ⟨d, -, hd⟩ := List.mem_map.1 hmem
  rw [← hd]
  rfl

theorem append (h : DigitsOf b cs ds) (h' : DigitsOf b cs' ds') :
    DigitsOf b (cs ++ cs') (ds ++ ds') := by
  rw [DigitsOf, List.map_append, List.map_append, h, h']

theorem filterMap (h : DigitsOf b cs ds) : cs.filterMap (digit? b) = ds := by
  have hmap : (cs.map (digit? b)).filterMap id = (ds.map some).filterMap id := by rw [h]
  simpa using hmap

theorem mapM (h : DigitsOf b cs ds) : cs.mapM (digit? b) = some ds := by
  induction cs generalizing ds with
  | nil =>
    cases ds with
    | nil => rfl
    | cons => cases h
  | cons c cs ih =>
    cases ds with
    | nil => cases h
    | cons d ds =>
      obtain ⟨hc, hcs⟩ := List.cons.inj h
      simp [hc, ih hcs]

end DigitsOf

theorem digitsOf_of_mapM (h : cs.mapM (digit? b) = some ds) : DigitsOf b cs ds := by
  induction cs generalizing ds with
  | nil =>
    cases h
    rfl
  | cons c cs ih =>
    rw [List.mapM_cons] at h
    obtain ⟨d, hd, h⟩ := Option.bind_eq_some_iff.1 h
    obtain ⟨ds, hds, h⟩ := Option.bind_eq_some_iff.1 h
    cases h
    rw [DigitsOf, List.map_cons, List.map_cons, hd, ih hds]

theorem digitsOf_toDigits (hb : 1 < b) (hb' : b ≤ 16) (n : Nat) :
    ∃ ds, DigitsOf b (Nat.toDigits b n) ds ∧ ofDigits b ds = n := by
  induction n using Nat.strongRecOn with
  | ind n ih =>
    rw [Nat.toDigits_eq_if hb]
    split
    · exact ⟨[n], by simp [DigitsOf, digit?_digitChar hb' ‹_›], by simp [ofDigits]⟩
    · obtain ⟨ds, hds, hn⟩ := ih (n / b) (Nat.div_lt_self (by omega) hb)
      have hmod := digit?_digitChar hb' (Nat.mod_lt n (by omega))
      refine ⟨ds ++ [n % b], hds.append (by simp [DigitsOf, hmod]), ?_⟩
      rw [ofDigits_append, hn, Nat.div_add_mod']

theorem digitsOf_zeros (hb : 0 < b) (k : Nat) :
    DigitsOf b (List.replicate k '0') (List.replicate k 0) := by
  have hzero : digit? b '0' = some 0 := by simp [digit?, hb]
  rw [DigitsOf, List.map_replicate, List.map_replicate, hzero]

theorem readNat?_zeros_append (hb : 1 < b) (hb' : b ≤ 16) (k n : Nat) :
    readNat? b (List.replicate k '0' ++ Nat.toDigits b n) = some n := by
  obtain ⟨ds, hds, hn⟩ := digitsOf_toDigits hb hb' n
  have hall := (digitsOf_zeros (by omega) k).append hds
  simp [readNat?, Nat.toDigits_ne_nil, hall.mapM, ofDigits_zeros, hn]

theorem readNat?_toDigits (hb : 1 < b) (hb' : b ≤ 16) (n : Nat) :
    readNat? b (Nat.toDigits b n) = some n :=
  readNat?_zeros_append hb hb' 0 n

theorem readNat?_eq_some (hne : cs ≠ []) (h : ∀ d ∈ cs, (digit? b d).isSome) :
    readNat? b cs = some (ofDigits b (cs.filterMap (digit? b))) := by
  have hdigits : DigitsOf b cs (cs.filterMap (digit? b)) := by
    clear hne
    induction cs with
    | nil => rfl
    | cons d cs ih =>
      obtain ⟨hd, hcs⟩ := List.forall_mem_cons.1 h
      obtain ⟨v, hv⟩ := Option.isSome_iff_exists.1 hd
      rw [DigitsOf, List.map_cons, List.filterMap_cons_some hv, List.map_cons, ih hcs, hv]
  rw [readNat?, hdigits.mapM]
  simp [hne]

theorem isSome_of_readNat? (h : readNat? b cs = some n) : ∀ c ∈ cs, (digit? b c).isSome := by
  unfold readNat? at h
  split at h
  · cases h
  · obtain ⟨ds, hds, -⟩ := Option.map_eq_some_iff.1 h
    exact (digitsOf_of_mapM hds).isSome

theorem isSome_digit?_of_le (hb : b ≤ b') (h : (digit? b c).isSome) : (digit? b' c).isSome := by
  obtain ⟨d, hd⟩ := Option.isSome_iff_exists.1 h
  obtain ⟨hvalue, hlt⟩ := Option.filter_eq_some_iff.1 hd
  have hlt' : d < b' := by
    rw [decide_eq_true_eq] at hlt
    omega
  exact Option.isSome_iff_exists.2
    ⟨d, Option.filter_eq_some_iff.2 ⟨hvalue, decide_eq_true hlt'⟩⟩

theorem digit?_toLower (b : Nat) (c : Char) : digit? b c.toLower = digit? b c := by
  by_cases hc : c.val ≥ 'A'.val ∧ c.val ≤ 'Z'.val
  · have hlow : 65 ≤ c.toNat := UInt32.le_iff_toNat_le.1 hc.1
    have hhigh : c.toNat ≤ 90 := UInt32.le_iff_toNat_le.1 hc.2
    rw [← Char.ofNat_toNat c]
    generalize c.toNat = m at hlow hhigh
    interval_cases m <;> rfl
  · have hsame : c.toLower = c := dif_neg hc
    rw [hsame]

theorem readNat?_map_toLower (b : Nat) (cs : List Char) :
    readNat? b (cs.map Char.toLower) = readNat? b cs := by
  rw [readNat?, readNat?, List.isEmpty_map, List.mapM_map]
  simp only [Function.comp_def, digit?_toLower]

theorem toList_toString (n : Nat) : (toString n).toList = Nat.toDigits 10 n := Nat.toList_repr

theorem length_hex (hw : 0 < w) (hn : n < 16 ^ w) : (hex w n).length = w := by
  have hlen := (Nat.length_toDigits_le_iff (by decide) hw).2 hn
  simp [hex]
  omega

theorem digitsOf_hex (w n : Nat) : ∃ ds, DigitsOf 16 (hex w n) ds ∧ ofDigits 16 ds = n := by
  obtain ⟨ds, hds, hn⟩ := digitsOf_toDigits (by decide) (Nat.le_refl 16) n
  exact ⟨_, (digitsOf_zeros (by decide) _).append hds, by rw [ofDigits_zeros, hn]⟩

end GoEnum.Text
