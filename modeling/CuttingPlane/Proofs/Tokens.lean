import CuttingPlane.Json.Reader
import CuttingPlane.Json.Value
import CuttingPlane.Proofs.Digits
import CuttingPlane.Proofs.Nearest
import CuttingPlane.Proofs.Snapping

/-!
# Tokens as they are written

Blanks, numbers and quoted texts are read back wherever they stand. What a number is read as does not depend
on what follows it, as long as that cannot go on a number; a quoted text is closed by its quote.
-/

namespace CuttingPlane.Json

theorem bind_eq_ok_iff {β γ : Type} {x : Except Offence β} {f : β → Except Offence γ} {c : γ} :
    (x >>= f) = .ok c ↔ ∃ b, x = .ok b ∧ f b = .ok c := by
  cases x with
  | error => exact ⟨nofun, nofun⟩
  | ok b => exact ⟨fun h => ⟨b, rfl, h⟩, fun ⟨_, h, h'⟩ => Except.ok.inj h ▸ h'⟩

/-- A bound on the length of a text allows one more step as long as it is not reached. -/
theorem exists_cons_of_lt_length {n : ℕ} {bound : List Char} (h : n < bound.length) :
    ∃ b rest, bound = b :: rest ∧ n ≤ rest.length := by
  cases bound with
  | nil => cases h
  | cons b rest => exact ⟨b, rest, rfl, Nat.le_of_lt_succ h⟩

/-! ### Blanks -/

theorem skipBlanks_append {lead : List Char} (h : ∀ c ∈ lead, isBlank c = true) (cs : List Char) :
    skipBlanks (lead ++ cs) = skipBlanks cs := List.dropWhile_append_of_pos h

theorem skipBlanks_cons {c : Char} (h : isBlank c = false) (cs : List Char) : skipBlanks (c :: cs) = c :: cs :=
  List.dropWhile_cons_of_neg (by simpa using h)

theorem skipBlanks_append_of_cons {cs cs' : List Char} {c : Char} (h : skipBlanks cs = c :: cs')
    (rest : List Char) : skipBlanks (cs ++ rest) = c :: (cs' ++ rest) := by
  rw [skipBlanks, List.dropWhile_append, show cs.dropWhile isBlank = c :: cs' from h]
  rfl

theorem isBlank_of_skipBlanks {cs rest : List Char} {c : Char} (h : skipBlanks cs = c :: rest) :
    isBlank c = false := by
  have hhead := List.head?_dropWhile_not isBlank cs
  rw [show cs.dropWhile isBlank = c :: rest from h] at hhead
  simpa using hhead

theorem isBlank_of_isDigit {c : Char} (h : c.isDigit = true) : isBlank c = false := by
  by_contra hblank
  rw [Bool.not_eq_false, isBlank] at hblank
  simp only [Bool.or_eq_true, beq_iff_eq] at hblank
  obtain ((rfl | rfl) | rfl) | rfl := hblank <;> cases h

/-! ### Numbers -/

/-- A text that cannot go on a number. -/
def EndsNumber (rest : List Char) : Prop :=
  ∀ c ∈ rest.head?, c.isDigit = false ∧ c ≠ '.' ∧ c ≠ 'e' ∧ c ≠ 'E'

variable {cs rest more : List Char} {n : Number}

theorem EndsNumber.spanDigits_append (h : EndsNumber rest) (cs : List Char) :
    Decimal.spanDigits (cs ++ rest) = ((Decimal.spanDigits cs).1, (Decimal.spanDigits cs).2 ++ rest) :=
  Decimal.spanDigits_append cs fun c hc => (h c hc).1

theorem readWhole_eq_ok_iff {ds : List Char} : readWhole cs = .ok (ds, more) ↔
    Decimal.spanDigits cs = (ds, more) ∧ ds ≠ [] ∧ (ds.head? = some '0' → ds = ['0']) := by
  unfold readWhole
  split
  · rename_i rest hspan
    rw [hspan]
    refine iff_of_false nofun ?_
    rintro ⟨hpair, hne, -⟩
    exact hne (Prod.mk.inj hpair).1.symm
  · rename_i c cs' rest hspan
    rw [hspan]
    refine iff_of_false nofun ?_
    rintro ⟨hpair, -, hfront⟩
    rw [← (Prod.mk.inj hpair).1] at hfront
    cases hfront rfl
  · rename_i ds' rest hsome hfront hspan
    rw [hspan, Except.ok.injEq, Prod.mk.injEq]
    refine ⟨fun hpair => ⟨hpair, ?_⟩, And.left⟩
    obtain ⟨rfl, rfl⟩ := hpair
    refine ⟨hsome, fun hzero => ?_⟩
    cases ds' with
    | nil => cases hzero
    | cons c es =>
      obtain rfl := Option.some.inj hzero
      cases es with
      | nil => rfl
      | cons d es => exact (hfront d es rfl).elim

theorem EndsNumber.readWhole_append (h : EndsNumber rest) {ds : List Char} (hds : readWhole cs = .ok (ds, more)) :
    readWhole (cs ++ rest) = .ok (ds, more ++ rest) := by
  rw [readWhole_eq_ok_iff] at hds ⊢
  rw [h.spanDigits_append, hds.1]
  exact ⟨rfl, hds.2⟩

theorem readFraction_of_ne (h : ∀ c ∈ cs.head?, c ≠ '.') : readFraction cs = .ok ([], cs) := by
  unfold readFraction
  split
  · exact absurd rfl (h _ rfl)
  · rfl

theorem readFraction_point_eq_ok_iff {ds : List Char} :
    readFraction ('.' :: cs) = .ok (ds, more) ↔ Decimal.spanDigits cs = (ds, more) ∧ ds ≠ [] := by
  simp only [readFraction]
  split
  · rename_i rest hspan
    rw [hspan]
    refine iff_of_false nofun ?_
    rintro ⟨hpair, hne⟩
    exact hne (Prod.mk.inj hpair).1.symm
  · rename_i ds' rest hsome hspan
    rw [hspan, Except.ok.injEq, Prod.mk.injEq]
    exact ⟨fun hpair => ⟨hpair, hpair.1 ▸ hsome⟩, And.left⟩

theorem EndsNumber.readFraction_append (h : EndsNumber rest) {ds : List Char}
    (hds : readFraction cs = .ok (ds, more)) : readFraction (cs ++ rest) = .ok (ds, more ++ rest) := by
  cases cs with
  | nil =>
    obtain ⟨rfl, rfl⟩ := Prod.mk.inj (Except.ok.inj hds)
    exact readFraction_of_ne fun c hc => (h c hc).2.1
  | cons c cs =>
    by_cases hc : c = '.'
    · subst hc
      rw [readFraction_point_eq_ok_iff] at hds
      rw [List.cons_append, readFraction_point_eq_ok_iff, h.spanDigits_append, hds.1]
      exact ⟨rfl, hds.2⟩
    · have hne : ∀ d ∈ (c :: cs).head?, d ≠ '.' := by
        rintro d hd
        rwa [← Option.some.inj hd]
      rw [readFraction_of_ne hne] at hds
      obtain ⟨rfl, rfl⟩ := Prod.mk.inj (Except.ok.inj hds)
      exact readFraction_of_ne hne

theorem readPower_of_ne (h : ∀ c ∈ cs.head?, c ≠ 'e' ∧ c ≠ 'E') : readPower cs = .ok (none, cs) := by
  unfold readPower
  split
  · rename_i c cs
    obtain ⟨hlower, hupper⟩ := h c rfl
    rw [if_neg (by simp [hlower, hupper])]
  · rfl

theorem takeSign_append {cs : List Char} (h : cs ≠ []) (rest : List Char) :
    Decimal.takeSign (cs ++ rest) = ((Decimal.takeSign cs).1, (Decimal.takeSign cs).2 ++ rest) := by
  obtain ⟨c, cs, rfl⟩ := List.exists_cons_of_ne_nil h
  rw [List.cons_append]
  by_cases hminus : c = '-'
  · rw [hminus]
    rfl
  by_cases hplus : c = '+'
  · rw [hplus]
    rfl
  · unfold Decimal.takeSign
    split <;> split <;> simp_all

/-- The power of ten after the sign that follows its mark. -/
theorem readPower_mark {c : Char} (hc : c = 'e' ∨ c = 'E') (power : Option ℤ) :
    readPower (c :: cs) = .ok (power, more) ↔ ∃ ds, Decimal.spanDigits (Decimal.takeSign cs).2 = (ds, more) ∧
      ds ≠ [] ∧ power = some (if (Decimal.takeSign cs).1 then -(Decimal.ofDigits ds : ℤ) else Decimal.ofDigits ds) := by
  simp only [readPower, if_pos hc]
  split
  · rename_i rest hspan
    rw [hspan]
    refine iff_of_false nofun ?_
    rintro ⟨ds, hpair, hne, -⟩
    exact hne (Prod.mk.inj hpair).1.symm
  · rename_i ds rest hsome hspan
    rw [hspan, Except.ok.injEq, Prod.mk.injEq]
    constructor
    · rintro ⟨rfl, rfl⟩
      exact ⟨ds, rfl, hsome, rfl⟩
    · rintro ⟨ds', hpair, -, rfl⟩
      obtain ⟨rfl, rfl⟩ := Prod.mk.inj hpair
      exact ⟨rfl, rfl⟩

theorem EndsNumber.readPower_append (h : EndsNumber rest) {power : Option ℤ}
    (hpower : readPower cs = .ok (power, more)) : readPower (cs ++ rest) = .ok (power, more ++ rest) := by
  cases cs with
  | nil =>
    obtain ⟨rfl, rfl⟩ := Prod.mk.inj (Except.ok.inj hpower)
    exact readPower_of_ne fun c hc => (h c hc).2.2
  | cons c cs =>
    by_cases hc : c = 'e' ∨ c = 'E'
    · rw [readPower_mark hc] at hpower
      obtain ⟨ds, hspan, hne, hvalue⟩ := hpower
      have hsome : cs ≠ [] := by
        rintro rfl
        exact hne (Prod.mk.inj hspan).1.symm
      rw [List.cons_append, readPower_mark hc, takeSign_append hsome, h.spanDigits_append, hspan]
      exact ⟨ds, rfl, hne, hvalue⟩
    · have hne : ∀ d ∈ (c :: cs).head?, d ≠ 'e' ∧ d ≠ 'E' := by
        rintro d hd
        rwa [← Option.some.inj hd, ← not_or]
      rw [readPower_of_ne hne] at hpower
      obtain ⟨rfl, rfl⟩ := Prod.mk.inj (Except.ok.inj hpower)
      exact readPower_of_ne hne

/-- A number after its sign. -/
def readUnsigned (negative : Bool) : Reader Number := fun cs => do
  let (whole, cs) ← readWhole cs
  let (fraction, cs) ← readFraction cs
  let (power, cs) ← readPower cs
  let number : Number := { negative, whole, fraction, power }
  if number.toFloat?.isSome then .ok (number, cs) else .error .malformed

theorem readNumber_of_ne {c : Char} (h : c ≠ '-') (cs : List Char) :
    readNumber (c :: cs) = readUnsigned false (c :: cs) := by
  unfold readNumber
  split
  rename_i negative cs' hmatch
  split at hmatch
  · rename_i hcons
    exact absurd (List.cons.inj hcons).1 h
  · obtain ⟨rfl, rfl⟩ := Prod.mk.inj hmatch
    rfl

theorem readUnsigned_eq_ok_iff {negative : Bool} : readUnsigned negative cs = .ok (n, more) ↔
    ∃ cs₁ cs₂, readWhole cs = .ok (n.whole, cs₁) ∧ readFraction cs₁ = .ok (n.fraction, cs₂) ∧
      readPower cs₂ = .ok (n.power, more) ∧ n.negative = negative ∧ n.toFloat?.isSome = true := by
  unfold readUnsigned
  simp only [bind_eq_ok_iff, Prod.exists]
  constructor
  · rintro ⟨whole, cs₁, hwhole, fraction, cs₂, hfraction, power, cs₃, hpower, hnumber⟩
    split at hnumber
    · obtain ⟨rfl, rfl⟩ := Prod.mk.inj (Except.ok.inj hnumber)
      exact ⟨cs₁, cs₂, hwhole, hfraction, hpower, rfl, ‹_›⟩
    · cases hnumber
  · rintro ⟨cs₁, cs₂, hwhole, hfraction, hpower, rfl, hsize⟩
    exact ⟨n.whole, cs₁, hwhole, n.fraction, cs₂, hfraction, n.power, more, hpower, if_pos hsize⟩

/-- What follows a number makes no difference to it. -/
theorem EndsNumber.readNumber_append (h : EndsNumber rest) (hn : readNumber cs = .ok (n, more)) :
    readNumber (cs ++ rest) = .ok (n, more ++ rest) := by
  have hunsigned {negative : Bool} {cs : List Char} (hn : readUnsigned negative cs = .ok (n, more)) :
      readUnsigned negative (cs ++ rest) = .ok (n, more ++ rest) := by
    rw [readUnsigned_eq_ok_iff] at hn ⊢
    obtain ⟨cs₁, cs₂, hwhole, hfraction, hpower, hnumber⟩ := hn
    exact ⟨cs₁ ++ rest, cs₂ ++ rest, h.readWhole_append hwhole, h.readFraction_append hfraction,
      h.readPower_append hpower, hnumber⟩
  cases cs with
  | nil => cases hn
  | cons c cs =>
    by_cases hc : c = '-'
    · subst hc
      exact hunsigned hn
    · rw [readNumber_of_ne hc] at hn
      rw [List.cons_append, readNumber_of_ne hc]
      exact hunsigned hn

section

variable {β : Type} {use : Number → Option β} {x : β}

theorem readNumberAs_eq_ok_iff : readNumberAs use cs = .ok (x, more) ↔
    ∃ c cs', skipBlanks cs = c :: cs' ∧ (c = '-' ∨ c.isDigit = true) ∧
      ∃ n, readNumber (c :: cs') = .ok (n, more) ∧ use n = some x := by
  unfold readNumberAs
  cases hskip : skipBlanks cs with
  | nil => exact iff_of_false nofun nofun
  | cons c cs' =>
    simp only [List.cons.injEq]
    split
    · rename_i hfront
      simp only [bind_eq_ok_iff, Prod.exists]
      constructor
      · rintro ⟨n, rest, hnumber, huse⟩
        split at huse
        · obtain ⟨rfl, rfl⟩ := Prod.mk.inj (Except.ok.inj huse)
          exact ⟨c, cs', ⟨rfl, rfl⟩, hfront, n, hnumber, ‹_›⟩
        · cases huse
      · rintro ⟨_, _, ⟨rfl, rfl⟩, -, n, hnumber, huse⟩
        exact ⟨n, more, hnumber, by rw [huse]⟩
    · rename_i hfront
      refine iff_of_false nofun ?_
      rintro ⟨_, _, ⟨rfl, rfl⟩, hfront', -⟩
      exact hfront hfront'

theorem EndsNumber.readNumberAs_append (h : EndsNumber rest) (hx : readNumberAs use cs = .ok (x, more)) :
    readNumberAs use (cs ++ rest) = .ok (x, more ++ rest) := by
  rw [readNumberAs_eq_ok_iff] at hx ⊢
  obtain ⟨c, cs', hskip, hfront, n, hnumber, huse⟩ := hx
  exact ⟨c, cs' ++ rest, skipBlanks_append_of_cons hskip rest, hfront, n, h.readNumber_append hnumber, huse⟩

end

/-! ### Natural numbers -/

theorem le_foldl_appendDigit (ds : List Char) (n : ℕ) : n ≤ ds.foldl Decimal.appendDigit n := by
  induction ds generalizing n with
  | nil => exact le_rfl
  | cons c ds ih =>
    have hstep : n ≤ Decimal.appendDigit n c := by
      unfold Decimal.appendDigit
      omega
    exact hstep.trans (ih _)

theorem takeDigits_eq (ds : List Char) {n : ℕ} (h : ds.foldl Decimal.appendDigit n < 2 ^ 64) :
    takeDigits n ds = (ds.foldl Decimal.appendDigit n, []) := by
  induction ds generalizing n with
  | nil => rfl
  | cons c ds ih =>
    have hlonger : Decimal.appendDigit n c < 2 ^ 64 := (le_foldl_appendDigit ds _).trans_lt h
    rw [takeDigits, if_pos (by rwa [Nat.pow_eq])]
    exact ih h

section

open Binary64 Float.Model

/-- A power of ten that is one leaves a finite double finite. -/
theorem isFinite_mul_one {x : Float} (h : Scalar.isFinite x = true) : (x * powerOfTen 0).isFinite = true := by
  have hparts : parts (powerOfTen 0) = .finite false (2 ^ 52) (-52) := rfl
  obtain ⟨s', -, hone⟩ := unpack_of_parts hparts
  obtain ⟨a, ha⟩ := isFinite_iff.1 h
  obtain ⟨s, m, e, hform, hunpack, -⟩ := unpack_of_value? ha
  rw [unpacked_of_pos (by norm_num)] at hone
  suffices ∃ b, value? (x * powerOfTen 0) = some b from isFinite_iff.2 this
  change ∃ b, value? (.ofModel (.pack (UnpackedFloat.mul .binary64 x.toModel.unpack _))) = some b
  rw [hunpack, hone]
  rcases Nat.eq_zero_or_pos m with rfl | hm
  · exact ⟨0, value?_ofModel_zero _⟩
  · have hexact := roundWithAccuracy_exact (s * s') hform hm 52
    rw [unpacked_of_pos hm]
    refine ⟨_, Eq.trans ?_ (value?_ofModel (s * s') hform)⟩
    rw [← hexact]
    rfl

theorem isFinite_ofWhole {n : ℕ} (h : n < 2 ^ 64) : Scalar.isFinite (ofWhole false n) = true := by
  have hlt : (n : ℚ) < 2 ^ (64 : ℤ) := by exact_mod_cast h
  have hsmall : |(n : ℚ) * 2 ^ (0 : ℤ)| < 2 ^ (1023 : ℤ) := by
    rw [zpow_zero, mul_one, Nat.abs_cast]
    exact hlt.trans (zpow_lt_zpow_right₀ one_lt_two (by norm_num))
  exact isFinite_iff.2 ⟨_, value?_round_nearest .positive (grid_le_of_lt hsmall)⟩

end

theorem toFloat?_isSome {ds : List Char} (h : Decimal.ofDigits ds < 2 ^ 64) :
    (Number.toFloat? ⟨false, ds, [], none⟩).isSome = true := by
  have hdecimal : Number.decimal ⟨false, ds, [], none⟩ = ⟨Decimal.ofDigits ds, 0⟩ := by
    rw [Number.decimal, takeDigits_eq ds h]
    rfl
  have hproduct := isFinite_mul_one (isFinite_ofWhole h)
  rw [Number.toFloat?, hdecimal]
  simp [scaleUp?, hproduct]

/-- A natural number of 64 bits is read back. -/
theorem readNat_digitChars {n : ℕ} (h : n < 2 ^ 64) : readNat (Decimal.digitChars n) = .ok (n, []) := by
  have hne : Decimal.digitChars n ≠ [] := Nat.toDigits_ne_nil
  obtain ⟨c, cs, hdigits⟩ := List.exists_cons_of_ne_nil hne
  have hall : ∀ d ∈ c :: cs, d.isDigit = true := fun d hd => Decimal.isDigit_of_mem_digitChars (hdigits ▸ hd)
  have hvalue : Decimal.ofDigits (c :: cs) = n := by rw [← hdigits, Decimal.ofDigits_digitChars]
  have hc : c.isDigit = true := hall c (List.mem_cons_self ..)
  have hminus : c ≠ '-' := by
    rintro rfl
    cases hc
  have hfront : (c :: cs).head? = some '0' → c :: cs = ['0'] := by
    intro hzero
    rw [← hdigits] at hzero ⊢
    rw [Decimal.eq_zero_of_head?_digitChars hzero]
    rfl
  rw [hdigits, readNat, readNumberAs_eq_ok_iff]
  refine ⟨c, cs, skipBlanks_cons (isBlank_of_isDigit hc) cs, .inr hc, ⟨false, c :: cs, [], none⟩, ?_, ?_⟩
  · rw [readNumber_of_ne hminus, readUnsigned_eq_ok_iff]
    exact ⟨[], [], readWhole_eq_ok_iff.2 ⟨Decimal.spanDigits_of_digits hall, nofun, hfront⟩, rfl, rfl, rfl,
      toFloat?_isSome (hvalue ▸ h)⟩
  · simp only [Number.toNat?, hvalue]
    rw [if_pos ⟨rfl, rfl, nofun, h⟩]

/-! ### Quoted texts -/

theorem hexValue?_hexDigit : ∀ k < 16, hexValue? (hexDigit k) = some k := by decide

/-- A character is read back from the way it is written inside quotes. -/
theorem readChar_escape (c : Char) (rest : List Char) : readChar (escape c ++ rest) = .ok (some c, rest) := by
  unfold escape
  split_ifs with hquote hslash hback htab hline hform hreturn hcontrol
  · rw [hquote]; rfl
  · rw [hslash]; rfl
  · rw [hback]; rfl
  · rw [htab]; rfl
  · rw [hline]; rfl
  · rw [hform]; rfl
  · rw [hreturn]; rfl
  · have hhigh := hexValue?_hexDigit (c.toNat / 16) (by omega)
    have hlow := hexValue?_hexDigit (c.toNat % 16) (by omega)
    have hhex : readHex ('0' :: '0' :: hexDigit (c.toNat / 16) :: hexDigit (c.toNat % 16) :: rest) =
        .ok (c.toNat, rest) := by
      simp only [readHex, show hexValue? '0' = some 0 from rfl, hhigh, hlow]
      congr 2
      omega
    change (readHex (_ :: _ :: _ :: _ :: rest) >>= _) >>= _ = _
    rw [hhex]
    change (if _ then _ else _) >>= _ = _
    rw [if_neg (by omega), if_neg (by omega), Char.ofNat_toNat]
    rfl
  · rw [List.singleton_append, readChar, if_neg hquote, if_neg hslash, if_neg hcontrol]

theorem escape_ne_nil (c : Char) : escape c ≠ [] := by
  unfold escape
  split_ifs <;> exact List.cons_ne_nil _ _

theorem length_le_length_escape (text : List Char) : text.length ≤ (text.flatMap escape).length := by
  induction text with
  | nil => exact le_rfl
  | cons c text ih =>
    have hpos := List.length_pos_iff.2 (escape_ne_nil c)
    rw [List.flatMap_cons, List.length_append, List.length_cons]
    omega

theorem readChars_escape (text rest bound : List Char) (h : text.length < bound.length) :
    readChars bound (text.flatMap escape ++ '"' :: rest) = .ok (text, rest) := by
  induction text generalizing bound with
  | nil =>
    obtain ⟨b, bound, rfl, -⟩ := exists_cons_of_lt_length h
    rfl
  | cons c text ih =>
    obtain ⟨b, bound, rfl, hless⟩ := exists_cons_of_lt_length h
    rw [List.flatMap_cons, List.append_assoc, readChars, readChar_escape]
    change (readChars bound _ >>= _) = _
    rw [ih bound hless]
    rfl

/-- A text is read back up to its closing quote. -/
theorem readQuoted_escape (s : String) (rest : List Char) :
    readQuoted (s.toList.flatMap escape ++ '"' :: rest) = .ok (s, rest) := by
  have hlength : s.toList.length < (s.toList.flatMap escape ++ '"' :: rest).length := by
    have hle := length_le_length_escape s.toList
    rw [List.length_append, List.length_cons]
    omega
  rw [readQuoted, readChars_escape _ _ _ hlength]
  change Except.ok (String.ofList s.toList, rest) = _
  rw [String.ofList_toList]

end CuttingPlane.Json
