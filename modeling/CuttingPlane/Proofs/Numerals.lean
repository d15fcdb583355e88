import CuttingPlane.Decimal.Fixed
import CuttingPlane.Proofs.Digits
import CuttingPlane.Proofs.Nearest
import Mathlib.Data.List.DropRight

/-!
# Rounded texts

The text of a double with at most so many decimals is a numeral in its shortest form, of the number of the
double rounded to these decimals. Numerals in this form are read back from their texts, so equal texts are
those of equal numbers. A text is there as long as the decimals are no more than can be asked for.
-/

namespace CuttingPlane.Decimal

/-! ### Numerals -/

/-- A decimal numeral: a sign, the digits before the point and those after it. -/
structure Numeral where
  negative : Bool
  whole : List Char
  fraction : List Char
deriving DecidableEq

namespace Numeral

/-- How a numeral is written. There is no point if no digits come after it. -/
def text (n : Numeral) : List Char :=
  (if n.negative then ['-'] else []) ++ n.whole ++ if n.fraction = [] then [] else '.' :: n.fraction

/-- The number that a numeral stands for. -/
def value (n : Numeral) : ℚ :=
  Binary64.signed n.negative (ofDigits (n.whole ++ n.fraction) / 10 ^ n.fraction.length)

/-- Digits on both sides of the point, those in front not left out. -/
structure IsPlain (n : Numeral) : Prop where
  digits : ∀ c ∈ n.whole ++ n.fraction, c.isDigit = true
  whole : n.whole ≠ []

/-- The shortest form of a numeral with at most so many decimals. -/
structure IsCanonical (n : Numeral) (places : ℕ) : Prop extends IsPlain n where
  /-- A zero is in front only if nothing else is before the point. -/
  front : n.whole.head? = some '0' → n.whole = ['0']
  places : n.fraction.length ≤ places
  /-- The digits after the point do not end in a zero. -/
  trimmed : n.fraction.getLast? ≠ some '0'
  /-- Zero has no sign. -/
  sign : n.negative = true → n.value ≠ 0

/-- The numeral that a text is read as. -/
def ofText (cs : List Char) : Numeral :=
  let (negative, rest) := takeSign cs
  let (whole, rest) := spanDigits rest
  ⟨negative, whole, rest.drop 1⟩

/-- A plain numeral is read back from its text. -/
theorem ofText_text {n : Numeral} (h : n.IsPlain) : ofText n.text = n := by
  obtain ⟨negative, whole, fraction⟩ := n
  obtain ⟨hdigits, hwhole⟩ := h
  obtain ⟨c, cs, rfl⟩ := List.exists_cons_of_ne_nil hwhole
  have hc : c.isDigit = true := hdigits c (by simp)
  have hpoint : ∀ d ∈ (if fraction = [] then [] else '.' :: fraction).head?, d.isDigit = false := by
    split <;> simp [Char.isDigit]
  have hspan := spanDigits_append (c :: cs) hpoint
  rw [spanDigits_of_digits fun d hd => hdigits d (List.mem_append_left _ hd)] at hspan
  have hsign : takeSign (text ⟨negative, c :: cs, fraction⟩) =
      (negative, c :: cs ++ if fraction = [] then [] else '.' :: fraction) := by
    cases negative
    · exact takeSign_of_isDigit hc _
    · rfl
  rw [ofText, hsign]
  simp only [hspan]
  congr 1
  split
  · rename_i hnil
    rw [hnil]
    rfl
  · rfl

theorem text_injective {m n : Numeral} (hm : m.IsPlain) (hn : n.IsPlain) (h : m.text = n.text) : m = n := by
  rw [← ofText_text hm, h, ofText_text hn]

end Numeral

/-! ### Setting the point -/

/-- The digits of a whole number, with zeros in front until there are more than `places`. -/
def padded (units places : ℕ) : List Char :=
  List.replicate (places + 1 - (digitChars units).length) '0' ++ digitChars units

/-- The digits of a whole number before the point that is set before its last `places` digits. -/
def wholeDigits (units places : ℕ) : List Char := (padded units places).take ((padded units places).length - places)

/-- The digits after that point. -/
def placeDigits (units places : ℕ) : List Char := (padded units places).drop ((padded units places).length - places)

theorem setPoint_eq (units places : ℕ) : setPoint units places =
    wholeDigits units places ++ if places = 0 then [] else '.' :: placeDigits units places := rfl

theorem wholeDigits_append (units places : ℕ) :
    wholeDigits units places ++ placeDigits units places = padded units places := List.take_append_drop _ _

theorem isDigit_of_mem_padded {units places : ℕ} {c : Char} (h : c ∈ padded units places) : c.isDigit = true := by
  rcases List.mem_append.1 h with h | h
  · rw [List.eq_of_mem_replicate h]
    rfl
  · exact isDigit_of_mem_digitChars h

theorem length_padded (units places : ℕ) : places + 1 ≤ (padded units places).length := by
  rw [padded, List.length_append, List.length_replicate]
  omega

theorem length_placeDigits (units places : ℕ) : (placeDigits units places).length = places := by
  have hlength := length_padded units places
  rw [placeDigits, List.length_drop]
  omega

theorem wholeDigits_ne_nil (units places : ℕ) : wholeDigits units places ≠ [] := by
  have hlength := length_padded units places
  rw [← List.length_pos_iff, wholeDigits, List.length_take]
  omega

theorem ofDigits_padded (units places : ℕ) : ofDigits (padded units places) = units := by
  rw [padded, ofDigits_append, ofDigits_replicate_zero, Nat.mul_zero, Nat.zero_add, ofDigits_digitChars]

/-- A zero is in front only if it stands for all digits before the point. -/
theorem wholeDigits_front {units places : ℕ} (h : (wholeDigits units places).head? = some '0') :
    wholeDigits units places = ['0'] := by
  have hlength : (padded units places).length = max (places + 1) (digitChars units).length := by
    rw [padded, List.length_append, List.length_replicate]
    omega
  by_cases hfilled : (digitChars units).length ≤ places
  -- Filled up, the digits leave one for the front.
  · have hone : (padded units places).length - places = 1 := by omega
    rw [wholeDigits, hone] at h ⊢
    cases hdigits : padded units places with
    | nil =>
      rw [hdigits, List.length_nil] at hlength
      omega
    | cons c cs =>
      rw [hdigits] at h
      rw [Option.some.inj h]
      rfl
  · have hpadded : padded units places = digitChars units := by
      rw [padded, Nat.sub_eq_zero_of_le (by omega), List.replicate_zero, List.nil_append]
    have hpos : 0 < (padded units places).length - places := by omega
    have hzero : units = 0 := by
      rw [wholeDigits, List.head?_take, if_neg hpos.ne', hpadded] at h
      exact eq_zero_of_head?_digitChars h
    have hdigit : padded units places = ['0'] := by rw [hpadded, hzero]; rfl
    rw [wholeDigits, List.take_of_length_le, hdigit]
    rw [hdigit] at hpos ⊢
    exact hpos

/-! ### Trimming -/

theorem dropTrailing_eq (c : Char) (cs : List Char) : dropTrailing c cs = cs.rdropWhile (· == c) := rfl

theorem exists_dropTrailing (c : Char) (cs : List Char) : ∃ k, cs = dropTrailing c cs ++ List.replicate k c := by
  refine ⟨(cs.rtakeWhile (· == c)).length, ?_⟩
  have htail : cs.rtakeWhile (· == c) = List.replicate (cs.rtakeWhile (· == c)).length c :=
    List.eq_replicate_length.2 fun d hd =>
      beq_iff_eq.1 (List.mem_rtakeWhile_imp (p := (· == c)) hd)
  rw [← htail]
  exact List.rdropWhile_append_rtakeWhile.symm

theorem dropTrailing_of_getLast? {c : Char} {cs : List Char} (h : cs.getLast? ≠ some c) : dropTrailing c cs = cs := by
  rw [dropTrailing_eq, List.rdropWhile_eq_self_iff]
  intro hne hlast
  rw [List.getLast?_eq_some_getLast hne, beq_iff_eq.1 hlast] at h
  exact h rfl

theorem dropTrailing_append_cons {c d : Char} (h : d ≠ c) (xs ys : List Char) :
    dropTrailing c (xs ++ d :: ys) = xs ++ d :: dropTrailing c ys := by
  have hstop : List.dropWhile (· == c) (d :: xs.reverse) = d :: xs.reverse :=
    List.dropWhile_cons_of_neg (by simpa using h)
  rw [dropTrailing, dropTrailing, List.reverse_append, List.reverse_cons, List.append_assoc, List.singleton_append,
    List.dropWhile_append, hstop]
  split
  · rename_i hempty
    rw [List.isEmpty_iff.1 hempty]
    simp
  · simp

theorem getLast?_dropTrailing (c : Char) (cs : List Char) : (dropTrailing c cs).getLast? ≠ some c := by
  intro h
  have hne : dropTrailing c cs ≠ [] := by
    rintro hnil
    rw [hnil] at h
    cases h
  rw [List.getLast?_eq_some_getLast hne] at h
  exact List.rdropWhile_last_not (· == c) cs hne (beq_iff_eq.2 (Option.some.inj h))

theorem mem_of_mem_dropTrailing {c d : Char} {cs : List Char} (h : d ∈ dropTrailing c cs) : d ∈ cs :=
  (List.rdropWhile_prefix (· == c) cs).subset h

theorem trimFraction_of_whole {cs : List Char} (h : '.' ∉ cs) : trimFraction cs = cs := by
  rw [trimFraction, if_neg (by simpa using h)]

theorem trimFraction_of_point {lead fraction : List Char} (hlead : '.' ∉ lead) (hfraction : '.' ∉ fraction) :
    trimFraction (lead ++ '.' :: fraction) =
      lead ++ if dropTrailing '0' fraction = [] then [] else '.' :: dropTrailing '0' fraction := by
  rw [trimFraction, if_pos (by simp), dropTrailing_append_cons (by decide)]
  split
  · rename_i hnil
    have hself : dropTrailing '.' lead = lead :=
      dropTrailing_of_getLast? fun h => hlead (List.mem_of_getLast? h)
    rw [hnil, List.append_nil, dropTrailing_eq, List.rdropWhile_concat_pos _ _ _ (by decide), ← dropTrailing_eq, hself]
  · rename_i hsome
    refine dropTrailing_of_getLast? fun h => hfraction (mem_of_mem_dropTrailing (c := '0') ?_)
    rw [List.getLast?_append_of_ne_nil _ (by simp), List.getLast?_cons_of_ne_nil hsome] at h
    exact List.mem_of_getLast? h

/-! ### The text of a rounded number -/

/-- So many units of the last place, without the zeros at the end. -/
def Numeral.ofUnits (u : ℤ) (places : ℕ) : Numeral where
  negative := decide (u < 0)
  whole := wholeDigits u.natAbs places
  fraction := dropTrailing '0' (placeDigits u.natAbs places)

namespace Numeral

theorem isPlain_trimmed (negative : Bool) (units places : ℕ) :
    IsPlain ⟨negative, wholeDigits units places, dropTrailing '0' (placeDigits units places)⟩ where
  digits c hc := by
    refine isDigit_of_mem_padded (?_ : c ∈ padded units places)
    rw [← wholeDigits_append, List.mem_append]
    exact (List.mem_append.1 hc).imp_right mem_of_mem_dropTrailing
  whole := wholeDigits_ne_nil _ _

/-- Zeros at the end of the fraction make no difference to the number. -/
theorem ofDigits_trimmed (ds es : List Char) :
    (ofDigits (ds ++ dropTrailing '0' es) : ℚ) / 10 ^ (dropTrailing '0' es).length =
      ofDigits (ds ++ es) / 10 ^ es.length := by
  obtain ⟨k, hk⟩ := exists_dropTrailing '0' es
  generalize dropTrailing '0' es = fs at hk ⊢
  rw [hk, ← List.append_assoc, ofDigits_append (ds ++ fs), ofDigits_replicate_zero, List.length_append,
    List.length_replicate, pow_add]
  push_cast
  field_simp
  ring

theorem value_ofUnits (u : ℤ) (places : ℕ) : (ofUnits u places).value = u / 10 ^ places := by
  rw [value, ofUnits, ofDigits_trimmed, wholeDigits_append, ofDigits_padded, length_placeDigits, Nat.cast_natAbs]
  rcases lt_or_ge u 0 with h | h
  · rw [decide_eq_true h, Binary64.signed_true, abs_of_neg h]
    push_cast
    ring
  · rw [decide_eq_false h.not_gt, Binary64.signed_false, abs_of_nonneg h]

theorem isCanonical_ofUnits (u : ℤ) (places : ℕ) : (ofUnits u places).IsCanonical places where
  toIsPlain := isPlain_trimmed _ _ _
  front := wholeDigits_front
  places := by
    have hle := (List.rdropWhile_prefix (· == '0') (placeDigits u.natAbs places)).length_le
    rwa [length_placeDigits] at hle
  trimmed := getLast?_dropTrailing '0' _
  sign h := by
    have hneg : u < 0 := of_decide_eq_true h
    have hcast : (u : ℚ) ≠ 0 := by exact_mod_cast hneg.ne
    rw [value_ofUnits]
    positivity

end Numeral

theorem raise_eq (b : ℕ) (e : ℤ) : raise b e = b ^ e.toNat := rfl

theorem fixedUnits_eq (m : ℕ) (e : ℤ) (places : ℕ) :
    (fixedUnits m e places : ℤ) = roundHalfEven (m * 2 ^ e * 10 ^ places) := by
  rw [fixedUnits, roundQuotient_eq _ (by rw [raise_eq]; positivity), raise_eq, raise_eq, Nat.pow_eq]
  congr 1
  rcases le_total 0 e with h | h
  · obtain ⟨k, rfl⟩ := Int.eq_ofNat_of_zero_le h
    have hk : (-(k : ℤ)).toNat = 0 := by omega
    rw [hk, Int.toNat_natCast, pow_zero, zpow_natCast]
    push_cast
    ring
  · obtain ⟨k, rfl⟩ : ∃ k : ℕ, e = -k := ⟨(-e).toNat, by omega⟩
    have hk : (-(k : ℤ)).toNat = 0 := by omega
    rw [hk, neg_neg, Int.toNat_natCast, pow_zero, zpow_neg, zpow_natCast]
    push_cast
    ring

theorem trimFraction_setPoint (negative : Bool) (units places : ℕ) :
    trimFraction ((if negative then ['-'] else []) ++ setPoint units places) =
      Numeral.text ⟨negative, wholeDigits units places, dropTrailing '0' (placeDigits units places)⟩ := by
  have hpoint : '.' ∉ padded units places := fun h => absurd (isDigit_of_mem_padded h) (by decide)
  rw [← wholeDigits_append, List.mem_append, not_or] at hpoint
  have hlead : '.' ∉ (if negative then ['-'] else []) ++ wholeDigits units places := by
    rw [List.mem_append, not_or]
    refine ⟨?_, hpoint.1⟩
    split <;> decide
  rw [setPoint_eq, ← List.append_assoc, Numeral.text]
  by_cases hzero : places = 0
  · have hnil : placeDigits units places = [] := by rw [← List.length_eq_zero_iff, length_placeDigits, hzero]
    have htrimmed : dropTrailing '0' (placeDigits units places) = [] := by rw [hnil]; rfl
    rw [if_pos hzero, List.append_nil, trimFraction_of_whole hlead, htrimmed, if_pos rfl, List.append_nil]
  · rw [if_neg hzero]
    exact trimFraction_of_point hlead hpoint.2

theorem Numeral.ofUnits_zero (places : ℕ) : ofUnits 0 places = ⟨false, ['0'], []⟩ := by
  have hpadded : padded 0 places = '0' :: List.replicate places '0' := by
    have hdigits : digitChars 0 = ['0'] := rfl
    rw [padded, hdigits, List.length_singleton, Nat.add_sub_cancel, ← List.replicate_succ, List.replicate_succ']
  have htrimmed : dropTrailing '0' (List.replicate places '0') = [] := by
    rw [dropTrailing_eq, List.rdropWhile_eq_nil_iff]
    exact fun c hc => beq_iff_eq.2 (List.eq_of_mem_replicate hc)
  have hfront : places + 1 - places = 1 := by omega
  rw [ofUnits, wholeDigits, placeDigits, Int.natAbs_zero, hpadded, List.length_cons, List.length_replicate, hfront]
  simp [htrimmed]

/-- The sign and the size of what a size under a sign is rounded to. -/
theorem roundHalfEven_signed (negative : Bool) (q : ℚ) :
    roundHalfEven (Binary64.signed negative q) = if negative then -roundHalfEven q else roundHalfEven q := by
  cases negative
  · rfl
  · exact roundHalfEven_neg q

/-- The units of the last place that a double is rounded to. -/
theorem round_units (negative : Bool) (m : ℕ) (e : ℤ) (places : ℕ) :
    roundHalfEven (Binary64.signed negative (m * 2 ^ e) * 10 ^ places) =
      if negative then -(fixedUnits m e places : ℤ) else fixedUnits m e places := by
  have hscaled : Binary64.signed negative ((m : ℚ) * 2 ^ e) * 10 ^ places =
      Binary64.signed negative (m * 2 ^ e * 10 ^ places) := by
    cases negative
    · rfl
    · simp
  rw [hscaled, roundHalfEven_signed, fixedUnits_eq]

/-- What is not zero is not written as zero with a sign. -/
theorem Numeral.text_trimmed_ne (negative : Bool) {units places : ℕ} (h : 0 < units) :
    text ⟨negative, wholeDigits units places, dropTrailing '0' (placeDigits units places)⟩ ≠ ['-', '0'] := by
  intro htext
  have hread := ofText_text (isPlain_trimmed negative units places)
  rw [htext] at hread
  have hwhole : ['0'] = wholeDigits units places := congrArg whole hread
  have hfraction : [] = dropTrailing '0' (placeDigits units places) := congrArg fraction hread
  have hvalue := ofDigits_trimmed (wholeDigits units places) (placeDigits units places)
  rw [wholeDigits_append, ofDigits_padded, ← hwhole, ← hfraction] at hvalue
  have hne : (units : ℚ) / 10 ^ (placeDigits units places).length ≠ 0 := by positivity
  exact hne (hvalue.symm.trans (by norm_num [ofDigits, appendDigit]))

/-- A double is written as its number rounded to so many decimals. -/
theorem rounded_eq {x : Float} {a : ℚ} (hx : Binary64.value? x = some a) (places : ℕ) :
    rounded x places = (Numeral.ofUnits (roundHalfEven (a * 10 ^ places)) places).text := by
  obtain ⟨negative, m, e, hparts, rfl⟩ := Binary64.parts_of_value? hx
  have hfixed : fixed x places =
      (if negative then ['-'] else []) ++ setPoint (fixedUnits m e places) places := by rw [fixed, hparts]
  rw [rounded, hfixed, trimFraction_setPoint, round_units]
  generalize fixedUnits m e places = units
  rcases Nat.eq_zero_or_pos units with rfl | hpos
  -- Zero is the only number whose sign is left out.
  · have hwhole : wholeDigits 0 places = ['0'] := congrArg Numeral.whole (Numeral.ofUnits_zero places)
    have hfraction : dropTrailing '0' (placeDigits 0 places) = [] :=
      congrArg Numeral.fraction (Numeral.ofUnits_zero places)
    rw [hwhole, hfraction, Nat.cast_zero, neg_zero, ite_self, Numeral.ofUnits_zero]
    cases negative <;> rfl
  · have hsame : Numeral.ofUnits (if negative then -(units : ℤ) else units) places =
        ⟨negative, wholeDigits units places, dropTrailing '0' (placeDigits units places)⟩ := by
      cases negative
      · simp [Numeral.ofUnits]
      · have hneg : -(units : ℤ) < 0 := by omega
        simp [Numeral.ofUnits, hpos]
    rw [hsame]
    exact if_neg (Numeral.text_trimmed_ne negative hpos)

/-- As long as the decimals can be asked for, a finite double has a text, which is a numeral in its shortest
form, worth the number rounded to these decimals; the texts of two doubles are the same exactly if they are
rounded to the same number. -/
theorem roundedText?_canonical {x : Float} {a : ℚ} (hx : Binary64.value? x = some a) (places : ℕ) :
    ((roundedText? x places).isSome = true ↔ places ≤ fillLimit) ∧ (places ≤ fillLimit →
      (∃ n : Numeral, roundedText? x places = some (.ofList n.text) ∧ n.IsCanonical places ∧
        n.value = roundHalfEven (a * 10 ^ places) / 10 ^ places) ∧
      ∀ y b, Binary64.value? y = some b → (roundedText? x places = roundedText? y places ↔
        roundHalfEven (a * 10 ^ places) = roundHalfEven (b * 10 ^ places))) := by
  have htext {x : Float} {a : ℚ} (hx : Binary64.value? x = some a) (hplaces : places ≤ fillLimit) :
      roundedText? x places =
        some (.ofList (Numeral.ofUnits (roundHalfEven (a * 10 ^ places)) places).text) := by
    rw [roundedText?, if_pos hplaces, roundedText, rounded_eq hx]
  refine ⟨?_, fun hplaces => ⟨⟨_, htext hx hplaces, Numeral.isCanonical_ofUnits _ _, Numeral.value_ofUnits _ _⟩,
    fun y b hy => ?_⟩⟩
  · rw [roundedText?]
    split <;> simp [*]
  rw [htext hx hplaces, htext hy hplaces]
  constructor
  · intro h
    have hnumeral := Numeral.text_injective (Numeral.isCanonical_ofUnits _ _).toIsPlain
      (Numeral.isCanonical_ofUnits _ _).toIsPlain (String.ofList_injective (Option.some.inj h))
    have hvalue := congrArg Numeral.value hnumeral
    rw [Numeral.value_ofUnits, Numeral.value_ofUnits, div_left_inj' (by positivity)] at hvalue
    exact_mod_cast hvalue
  · rintro h
    rw [h]

-- The half between the last decimals one and two below zero goes to the even one, without a zero at the end.
theorem roundedText?_canonical_half : Binary64.value? (-1.125 : Float) = some (-9 / 8) ∧ 2 ≤ fillLimit ∧
    ∃ n : Numeral, roundedText? (-1.125) 2 = some (.ofList n.text) ∧ n.IsCanonical 2 ∧ n.value = -112 / 100 := by
  have hparts : Binary64.parts (-1.125) = .finite true 5066549580791808 (-52) := rfl
  have hvalue : Binary64.value? (-1.125 : Float) = some (-9 / 8) := by
    rw [Binary64.value?, hparts]
    norm_num [Binary64.Parts.value?]
  have hround : roundHalfEven (-9 / 8 * 10 ^ 2) = -112 :=
    roundHalfEven_eq_iff.2 ⟨by norm_num [abs_le], fun _ => by decide⟩
  obtain ⟨⟨n, htext, hcanonical, hn⟩, -⟩ := (roundedText?_canonical hvalue 2).2 (by decide)
  refine ⟨hvalue, by decide, n, htext, hcanonical, ?_⟩
  rw [hn, hround]
  norm_num

-- More decimals than can be asked for, although two would do.
theorem roundedText?_past_limit :
    Binary64.value? (1.5 : Float) = some (3 / 2) ∧ roundedText? 1.5 65536 = none := by
  decide +kernel

end CuttingPlane.Decimal
