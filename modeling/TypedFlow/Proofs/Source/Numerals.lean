import TypedFlow.Proofs.Source.Scanning

/-!
# Scanning numerals

The numeral of a magnitude is scanned back as that magnitude: its digits, with or without a point,
stand for the shortest decimal, or for the whole number itself where it is of moderate size.
-/
namespace TypedFlow

namespace Number

/-- The text of a magnitude: an integer where it is moderate, or else the shortest decimal. -/
def numeral (x : Magnitude) : String :=
  if x.units % unitsPerOne = 0 && x.units / unitsPerOne < displayLimit then
    toString (x.units / unitsPerOne)
  else decimalText (shortest x)

/-- A minus is shown before every negative number but zero. -/
def showsSign : Number → Bool
  | .finite negative x => negative && x.units != 0
  | _ => false

theorem toString_signed (negative : Bool) (n : Nat) :
    toString (signed negative n) = (if negative && n != 0 then "-" else "") ++ toString n := by
  cases negative with
  | false => simp [signed, Int.toString_eq_repr, Int.repr, Nat.toString_eq_repr]
  | true =>
    cases n with
    | zero => rfl
    | succ n => rfl

theorem display_finite (negative : Bool) (x : Magnitude) :
    display (.finite negative x) =
      (if showsSign (.finite negative x) then "-" else "") ++ numeral x := by
  have hpos := unitsPerOne_pos
  simp only [display, numeral, showsSign]
  split
  · rename_i hwhole
    simp only [Bool.and_eq_true, decide_eq_true_eq] at hwhole
    have hzero : (x.units / unitsPerOne != 0) = (x.units != 0) := by
      rw [Bool.eq_iff_iff, bne_iff_ne, bne_iff_ne, ne_eq, ne_eq, Nat.div_eq_zero_iff]
      generalize unitsPerOne = one at hpos hwhole
      have hmod := Nat.div_add_mod x.units one
      constructor
      · omega
      · rintro hne (hone | hlt)
        · omega
        · rw [Nat.mod_eq_of_lt hlt] at hwhole
          omega
    rw [toString_signed, hzero]
    rfl
  · rename_i hwhole
    have hne : x.units ≠ 0 := by
      intro hzero
      refine hwhole ?_
      rw [hzero, Nat.zero_mod, Nat.zero_div]
      rfl
    simp [toText, hne]

theorem eq_append_zeros (cs : List Char) :
    ∃ zeros, cs = (cs.reverse.dropWhile (· == '0')).reverse ++ List.replicate zeros '0' := by
  refine ⟨(cs.reverse.takeWhile (· == '0')).length, ?_⟩
  have hzeros : cs.reverse.takeWhile (· == '0') =
      List.replicate (cs.reverse.takeWhile (· == '0')).length '0' :=
    List.eq_replicate_iff.2 ⟨rfl, fun c hc => eq_of_beq (List.all_eq_true.1 List.all_takeWhile c hc)⟩
  calc cs = (cs.reverse.takeWhile (· == '0') ++ cs.reverse.dropWhile (· == '0')).reverse := by
        rw [List.takeWhile_append_dropWhile, List.reverse_reverse]
    _ = _ := by rw [List.reverse_append, hzeros, List.reverse_replicate, List.length_replicate]

/-- The digits of a fraction are those of its padded text but for zeros at the end. -/
theorem fractionDigits_zeros {fraction : Nat} (h : fraction < finestPerOne) :
    ∃ zeros, (fractionDigits fraction).length + zeros = finestPlace ∧
      Nat.ofDigitChars 10 (fractionDigits fraction) 0 * Nat.pow 10 zeros = fraction := by
  have hlength : (Nat.toDigits 10 fraction).length ≤ finestPlace := by
    have hpos : 0 < finestPlace := by decide
    unfold finestPerOne at h
    generalize finestPlace = places at h hpos ⊢
    exact (Nat.length_toDigits_le_iff (by decide) hpos).2 h
  unfold fractionDigits
  dsimp only
  generalize hpadded : List.replicate (finestPlace - (Nat.toDigits 10 fraction).length) '0' ++
    Nat.toDigits 10 fraction = padded
  have hvalue : Nat.ofDigitChars 10 padded 0 = fraction := by
    rw [← hpadded, Nat.ofDigitChars_append, Nat.ofDigitChars_replicate_zero, Nat.mul_zero,
      Nat.ofDigitChars_ten_toDigits]
  have hplaces : padded.length = finestPlace := by
    rw [← hpadded, List.length_append, List.length_replicate]
    omega
  obtain ⟨zeros, hsplit⟩ := eq_append_zeros padded
  generalize (padded.reverse.dropWhile (· == '0')).reverse = kept at hsplit
  subst hsplit
  refine ⟨zeros, ?_, ?_⟩
  · rw [← hplaces, List.length_append, List.length_replicate]
  · rw [← hvalue, Nat.ofDigitChars_append, Nat.ofDigitChars_replicate_zero, Nat.mul_comm,
      Nat.pow_eq]

theorem isDigit_of_mem_fractionDigits {fraction : Nat} {c : Char} (h : c ∈ fractionDigits fraction) :
    c.isDigit = true := by
  unfold fractionDigits at h
  dsimp only at h
  have hmem := (List.dropWhile_suffix _).subset (List.mem_reverse.1 h)
  rcases List.mem_append.1 (List.mem_reverse.1 hmem) with hzero | hdigit
  · rw [List.eq_of_mem_replicate hzero]
    rfl
  · exact Nat.isDigit_of_mem_toDigits (by decide) (by decide) hdigit

end Number

namespace Source
open Number

/-- A point and the digits after it, if there are any. -/
def pointed : List Char → List Char
  | [] => []
  | fraction => '.' :: fraction

/-- Digits, and digits after a point. -/
structure Digits where
  first : Char
  whole : List Char
  fraction : List Char
  areDigits : ∀ c ∈ first :: whole ++ fraction, c.isDigit = true

namespace Digits

def chars (d : Digits) : List Char := d.first :: (d.whole ++ pointed d.fraction)

def value (d : Digits) : Number :=
  .ofDecimal (digitsValue (d.first :: d.whole ++ d.fraction)) d.fraction.length

/-- No digit goes on with the digits, nor does a point with a digit if none has come yet. -/
structure EndsBefore (d : Digits) (rest : List Char) : Prop where
  digit : ∀ c ∈ rest.head?, c.isDigit = false
  point : d.fraction = [] → Source.fractionDigits rest = []

theorem numberToken_chars {d : Digits} {rest : List Char} (hrest : d.EndsBefore rest) :
    numberToken d.first (d.whole ++ pointed d.fraction ++ rest) =
      (.number d.value, (d.whole ++ pointed d.fraction).length) := by
  obtain ⟨first, whole, fraction, hdigits⟩ := d
  obtain ⟨hdigit, hpoint⟩ := hrest
  simp only [List.cons_append, List.forall_mem_cons, List.forall_mem_append] at hdigits
  obtain ⟨-, hwhole, hfraction⟩ := hdigits
  have hhead : ∀ c ∈ (pointed fraction ++ rest).head?, c.isDigit = false := by
    cases fraction with
    | nil => exact hdigit
    | cons c fraction =>
      intro d hd
      cases hd
      rfl
  have hfound : fractionDigits (pointed fraction ++ rest) = fraction := by
    cases fraction with
    | nil => exact hpoint rfl
    | cons c fraction => exact takeWhile_append_eq hfraction hdigit
  unfold numberToken
  dsimp only
  rw [List.append_assoc, takeWhile_append_eq hwhole hhead, List.drop_left, hfound]
  cases fraction with
  | nil => simp [value, pointed]
  | cons c fraction => simp [value, pointed, Nat.add_assoc, Nat.add_comm 1]

theorem scanned {d : Digits} {rest : List Char} (hrest : d.EndsBefore rest) :
    Scanned d.chars (.number d.value) rest := by
  have hfirst : d.first.isDigit = true := d.areDigits _ (by simp)
  refine ⟨d.first, d.whole ++ pointed d.fraction, rfl, (class_of_isDigit hfirst).2.2, ?_⟩
  rw [lexeme?, if_pos hfirst, numberToken_chars hrest]

end Digits

theorem Scans.digits {rest : List Char} {tokens : List Token} (h : Scans rest tokens) (d : Digits)
    (hrest : EndsNumber rest) : Scans (d.chars ++ rest) (.number d.value :: tokens) :=
  h.scanned (Digits.scanned ⟨hrest.digit, fun _ => hrest.point⟩)

theorem digitsValue_eq (ds : List Char) : digitsValue ds = Nat.ofDigitChars 10 ds 0 := by
  simp [digitsValue, Nat.ofDigitChars, Nat.mul_comm]

theorem exists_toDigits (n : Nat) : ∃ first whole, Nat.toDigits 10 n = first :: whole := by
  cases h : Nat.toDigits 10 n with
  | nil => exact absurd h Nat.toDigits_ne_nil
  | cons first whole => exact ⟨first, whole, rfl⟩

theorem isDigit_of_mem_toDigits {n : Nat} : ∀ c ∈ Nat.toDigits 10 n, c.isDigit = true :=
  fun _ hc => Nat.isDigit_of_mem_toDigits (by decide) (by decide) hc

/-- The digits of a whole number. -/
theorem exists_digits_whole (n : Nat) :
    ∃ d : Digits, (toString n).toList = d.chars ∧ d.value = .ofDecimal n 0 := by
  obtain ⟨first, whole, hdigits⟩ := exists_toDigits n
  refine ⟨⟨first, whole, [], ?_⟩, ?_, ?_⟩
  · rw [List.append_nil, ← hdigits]
    exact isDigit_of_mem_toDigits
  · simp [hdigits, Digits.chars, pointed]
  · change ofDecimal (digitsValue (first :: whole ++ [])) 0 = ofDecimal n 0
    rw [List.append_nil, ← hdigits, digitsValue_eq, Nat.ofDigitChars_ten_toDigits]

/-- The digits of a decimal that is counted in finest places. -/
theorem exists_digits_decimal (decimal : Nat) :
    ∃ d : Digits, (decimalText decimal).toList = d.chars ∧ d.value = ofFinest decimal := by
  have hsum := Nat.div_add_mod decimal finestPerOne
  have hlt : decimal % finestPerOne < finestPerOne := Nat.mod_lt _ finestPerOne_pos
  unfold decimalText
  dsimp only
  generalize decimal / finestPerOne = whole at hsum
  generalize decimal % finestPerOne = fraction at hsum hlt
  obtain ⟨zeros, hplaces, hvalue⟩ := fractionDigits_zeros hlt
  split
  · rename_i hzero
    obtain ⟨d, hchars, hd⟩ := exists_digits_whole whole
    have hdecimal : whole * Nat.pow 10 finestPlace = decimal := by
      unfold finestPerOne at hsum
      generalize finestPlace = places at hsum ⊢
      rw [← hsum, hzero, Nat.add_zero, Nat.mul_comm]
    refine ⟨d, hchars, hd.trans ?_⟩
    rw [ofFinest, ← hdecimal, ← ofDecimal_zeros whole 0 finestPlace, Nat.zero_add]
  · rename_i hne
    obtain ⟨first, digits, hdigits⟩ := exists_toDigits whole
    have hdecimal : (10 ^ (Number.fractionDigits fraction).length * whole +
        Nat.ofDigitChars 10 (Number.fractionDigits fraction) 0) * Nat.pow 10 zeros = decimal := by
      unfold finestPerOne at hsum
      rw [← hplaces] at hsum
      rw [← hsum, Nat.add_mul, hvalue, Nat.pow_eq, Nat.pow_eq, Nat.pow_add, Nat.mul_right_comm]
    refine ⟨⟨first, digits, Number.fractionDigits fraction, ?_⟩, ?_, ?_⟩
    · rw [← hdigits]
      exact List.forall_mem_append.2
        ⟨isDigit_of_mem_toDigits, fun _ => isDigit_of_mem_fractionDigits⟩
    · have hpointed : pointed (Number.fractionDigits fraction) =
          '.' :: Number.fractionDigits fraction := by
        cases hnil : Number.fractionDigits fraction with
        | nil =>
          rw [hnil, Nat.ofDigitChars_nil, Nat.zero_mul] at hvalue
          exact absurd hvalue.symm hne
        | cons c cs => rfl
      simp [Digits.chars, hpointed, hdigits]
    · change ofDecimal (digitsValue (first :: digits ++ Number.fractionDigits fraction))
        (Number.fractionDigits fraction).length = ofFinest decimal
      rw [← hdigits, digitsValue_eq, Nat.ofDigitChars_append, Nat.ofDigitChars_ten_toDigits,
        Nat.ofDigitChars_eq_ofDigitChars_zero, ← ofDecimal_zeros _ _ zeros, hplaces, hdecimal,
        ofFinest]

/-- The numeral of a magnitude is made of digits that stand for it. -/
theorem exists_digits_numeral (x : Magnitude) :
    ∃ d : Digits, (numeral x).toList = d.chars ∧ d.value = .finite false x := by
  unfold numeral
  split
  · rename_i hwhole
    simp only [Bool.and_eq_true, decide_eq_true_eq] at hwhole
    obtain ⟨d, hchars, hvalue⟩ := exists_digits_whole (x.units / unitsPerOne)
    refine ⟨d, hchars, hvalue.trans (ofDecimal_whole ?_)⟩
    exact (Nat.div_mul_cancel (Nat.dvd_of_mod_eq_zero hwhole.1)).symm
  · obtain ⟨d, hchars, hvalue⟩ := exists_digits_decimal (shortest x)
    exact ⟨d, hchars, hvalue.trans (ofFinest_shortest x)⟩

/-- A numeral is scanned back as its magnitude. -/
theorem Scans.numeral {rest : List Char} {tokens : List Token} (h : Scans rest tokens)
    (hrest : EndsNumber rest) (x : Magnitude) :
    Scans ((numeral x).toList ++ rest) (.number (.finite false x) :: tokens) := by
  obtain ⟨d, hchars, hvalue⟩ := exists_digits_numeral x
  rw [hchars, ← hvalue]
  exact h.digits d hrest

end Source

end TypedFlow
