import ApiDocs.Json.Reader
import ApiDocs.Json.Writer
import ApiDocs.Proofs.Decimal
/-!
# Tokens of JSON

A string or a number that was written is read back as itself, whatever follows it. For a string that
is one lemma about an escaped character; for a number it is one lemma about the parts a number is
made of, which the forms of a decimal are cases of.
-/
namespace ApiDocs.Json

/-! ## Strings -/

theorem hexValue?_hexDigit : ∀ n < 16, hexValue? (hexDigit n) = some n := by decide

/-- An escaped character is read back as itself. -/
theorem readString_escapeChar (c : Char) (chars rest : List Char) :
    readString ⟨chars, none, true⟩ (escapeChar c ++ rest) = readString ⟨c :: chars, none, true⟩ rest := by
  unfold escapeChar
  split_ifs with hq hb hn hr ht h8 h12 hctl
  · subst hq; simp [readString, unescape?, StringState.push]
  · subst hb; simp [readString, unescape?, StringState.push]
  · subst hn; simp [readString, unescape?, StringState.push]
  · subst hr; simp [readString, unescape?, StringState.push]
  · subst ht; simp [readString, unescape?, StringState.push]
  · have hc : c = Char.ofNat 8 := by rw [← h8, Char.ofNat_toNat]
    subst hc; simp [readString, unescape?, StringState.push]
  · have hc : c = Char.ofNat 12 := by rw [← h12, Char.ofNat_toNat]
    subst hc; simp [readString, unescape?, StringState.push]
  · have hhex : hex4? '0' '0' (hexDigit (c.toNat / 16)) (hexDigit (c.toNat % 16)) = some c.toNat := by
      have hz : hexValue? '0' = some 0 := by decide
      have hsum : c.toNat / 16 * 16 + c.toNat % 16 = c.toNat := by omega
      simp [hex4?, hz, hexValue?_hexDigit _ (show c.toNat / 16 < 16 by omega),
        hexValue?_hexDigit _ (show c.toNat % 16 < 16 by omega), hsum]
    have hunit : (⟨chars, none, true⟩ : StringState).pushUnit c.toNat = ⟨c :: chars, none, true⟩ := by
      have hhigh : isHighSurrogate c.toNat = false := by simp [isHighSurrogate]; omega
      have hlow : isLowSurrogate c.toNat = false := by simp [isLowSurrogate]; omega
      simp [StringState.pushUnit, StringState.push, hhigh, hlow, Char.ofNat_toNat]
    simp only [List.cons_append, List.nil_append]
    rw [readString, hhex]
    simp only [hunit]
  · have hplain : ¬ (c.toNat < 32 ∨ c = '\\') := not_or.2 ⟨hctl, hb⟩
    simp only [List.cons_append, List.nil_append]
    rw [readString.eq_def]
    -- Only the last branch is left to a character that is no quote and no backslash.
    split
    all_goals simp_all [StringState.push]

/-- A quoted text is read back as itself, up to its closing quote. -/
theorem readString_escaped (s : List Char) : ∀ chars rest : List Char,
    readString ⟨chars, none, true⟩ (s.flatMap escapeChar ++ '"' :: rest) =
      some (some (String.ofList (chars.reverse ++ s)), rest) := by
  induction s with
  | nil => intro chars rest; simp [readString, StringState.finish]
  | cons c s ih =>
    intro chars rest
    rw [List.flatMap_cons, List.append_assoc, readString_escapeChar, ih]
    simp

/-- What follows the opening quote of a quoted text. -/
theorem quote_append (s : String) (rest : List Char) :
    quote s ++ rest = '"' :: (s.toList.flatMap escapeChar ++ '"' :: rest) := by
  simp [quote]

theorem readString_quote (s : String) (rest : List Char) :
    readString .start (s.toList.flatMap escapeChar ++ '"' :: rest) = some (some s, rest) := by
  rw [StringState.start, readString_escaped]
  simp

/-! ## Parts of a number -/

/-- Whether nothing more of a number can follow. -/
def Stops (rest : List Char) : Prop :=
  ∀ c, rest.head? = some c → c.isDigit = false ∧ c ≠ '.' ∧ c ≠ 'e' ∧ c ≠ 'E'

/-- Whether all characters are digits, and the first is no zero unless it is the only one. -/
structure Leads (ds : List Char) : Prop where
  digits : ∀ c ∈ ds, c.isDigit = true
  nonempty : ds ≠ []
  lead : ds = ['0'] ∨ ds.head? ≠ some '0'

variable {ds whole places tail rest : List Char}

theorem spanDigits_append (hd : ∀ c ∈ ds, c.isDigit = true) (hr : ∀ c, rest.head? = some c → c.isDigit = false) :
    spanDigits (ds ++ rest) = (ds, rest) := by
  have htake : rest.takeWhile Char.isDigit = [] := by
    cases rest with
    | nil => rfl
    | cons c cs => simp [hr c rfl]
  have hdrop : rest.dropWhile Char.isDigit = rest := by
    cases rest with
    | nil => rfl
    | cons c cs => simp [hr c rfl]
  rw [spanDigits, List.takeWhile_append_of_pos hd, List.dropWhile_append_of_pos hd, htake, hdrop, List.append_nil]

theorem readFraction_none (h : rest.head? ≠ some '.') : readFraction rest = some (none, rest) := by
  cases rest with
  | nil => rfl
  | cons c cs =>
    have hc : c ≠ '.' := by simpa using h
    simp [readFraction, hc]

theorem readFraction_some (hd : ∀ c ∈ ds, c.isDigit = true) (hn : ds ≠ [])
    (hr : ∀ c, rest.head? = some c → c.isDigit = false) :
    readFraction ('.' :: (ds ++ rest)) = some (some ds, rest) := by
  have hspan := spanDigits_append hd hr
  cases ds with
  | nil => exact absurd rfl hn
  | cons d ds => simp only [readFraction, hspan]

theorem readExponent_none (he : rest.head? ≠ some 'e') (hE : rest.head? ≠ some 'E') :
    readExponent rest = some (none, rest) := by
  cases rest with
  | nil => rfl
  | cons c cs =>
    have hc : ¬ (c = 'e' ∨ c = 'E') := not_or.2 ⟨by simpa using he, by simpa using hE⟩
    simp [readExponent, hc]

theorem Stops.not_isDigit (hr : Stops rest) : ∀ c, rest.head? = some c → c.isDigit = false :=
  fun c hc => (hr c hc).1

theorem Stops.readFraction (hr : Stops rest) : Json.readFraction rest = some (none, rest) :=
  readFraction_none fun h => (hr _ h).2.1 rfl

theorem Stops.readExponent (hr : Stops rest) : Json.readExponent rest = some (none, rest) :=
  readExponent_none (fun h => (hr _ h).2.2.1 rfl) fun h => (hr _ h).2.2.2 rfl

theorem digitsValue_toDigits (n : Nat) : digitsValue (Nat.toDigits 10 n) = n :=
  Nat.ofDigitChars_ten_toDigits

/-- Zeros behind digits multiply their value. -/
theorem digitsValue_zeros (ds : List Char) (k : Nat) :
    digitsValue (ds ++ List.replicate k '0') = digitsValue ds * 10 ^ k := by
  have happ : digitsValue (ds ++ List.replicate k '0') = Nat.ofDigitChars 10 (List.replicate k '0') (digitsValue ds) :=
    Nat.ofDigitChars_append 0
  rw [happ, Nat.ofDigitChars_replicate_zero, Nat.mul_comm]

/-- Zeros before digits do not count. -/
theorem digitsValue_leading (k : Nat) (ds : List Char) :
    digitsValue (List.replicate k '0' ++ ds) = digitsValue ds := by
  have happ : digitsValue (List.replicate k '0' ++ ds) = Nat.ofDigitChars 10 ds (digitsValue (List.replicate k '0')) :=
    Nat.ofDigitChars_append 0
  have hzero : digitsValue (List.replicate k '0') = 0 := Nat.ofDigitChars_replicate_zero.trans (Nat.mul_zero _)
  rw [happ, hzero]
  rfl

theorem isDigit_of_mem_toDigits {n : Nat} {c : Char} (h : c ∈ Nat.toDigits 10 n) : c.isDigit = true :=
  Nat.isDigit_of_mem_toDigits (by norm_num) (by norm_num) h

theorem head_toDigits {n : Nat} (hn : 0 < n) : (Nat.toDigits 10 n).head? ≠ some '0' := by
  induction n using Nat.strongRecOn with
  | ind n ih =>
    by_cases h : n < 10
    · have hsmall : ∀ n < 10, 0 < n → Nat.digitChar n ≠ '0' := by decide
      rw [Nat.toDigits_of_lt_base h]
      simpa using hsmall n h hn
    · rw [Nat.toDigits_of_base_le (by norm_num) (by omega), List.head?_append_of_ne_nil _ Nat.toDigits_ne_nil]
      exact ih _ (by omega) (by omega)

theorem leads_toDigits (n : Nat) : Leads (Nat.toDigits 10 n) := by
  refine ⟨fun c => isDigit_of_mem_toDigits, Nat.toDigits_ne_nil, ?_⟩
  rcases Nat.eq_zero_or_pos n with rfl | hn
  · exact .inl rfl
  · exact .inr (head_toDigits hn)

/-- The text of a power of ten. -/
def powerChars (p : Int) : List Char :=
  'e' :: (if p < 0 then '-' else '+') :: Nat.toDigits 10 p.natAbs

/-- A written power of ten is read back. -/
theorem readExponent_some (p : Int) (hr : ∀ c, rest.head? = some c → c.isDigit = false) :
    readExponent (powerChars p ++ rest) = some (some p, rest) := by
  have hspan := spanDigits_append (fun c => isDigit_of_mem_toDigits (n := p.natAbs)) hr
  have hval : digitsValue (Nat.toDigits 10 p.natAbs) = p.natAbs := digitsValue_toDigits _
  obtain ⟨d, cs, hds⟩ := List.exists_cons_of_ne_nil (Nat.toDigits_ne_nil (n := p.natAbs) (b := 10))
  rw [powerChars, List.cons_append, List.cons_append]
  rw [hds] at hval hspan ⊢
  rw [List.cons_append] at hspan
  split_ifs with hp
  · have hp' : -(p.natAbs : Int) = p := by omega
    simp only [readExponent, List.cons_append, hspan, hval, hp', true_or, if_true]
  · simp [readExponent, hspan, hval]
    omega

section
variable (negative : Bool)

/-- A number is read part by part. -/
theorem readNumber_parts (hl : Leads ds) (ht : ∀ c, tail.head? = some c → c.isDigit = false)
    {fraction : Option (List Char)} {tail' : List Char} (hf : readFraction tail = some (fraction, tail'))
    {exponent : Option Int} (he : readExponent tail' = some (exponent, rest)) :
    readNumber negative (ds ++ tail) = some (numberNode negative (digitsValue (ds ++ fraction.getD []))
      (fraction.getD []).length exponent (fraction.isNone && exponent.isNone), rest) := by
  unfold readNumber
  rw [spanDigits_append hl.digits ht]
  split
  case h_1 hs =>
    exact absurd (congrArg Prod.fst hs) hl.nonempty
  case h_2 d cs r hs =>
    have hs := congrArg Prod.fst hs
    rcases hl.lead with h | h
    · simp [h] at hs
    · simp only at hs
      simp [hs] at h
  case h_3 ds' rest' _ _ hs =>
    obtain ⟨rfl, rfl⟩ := Prod.mk.injEq .. ▸ hs
    simp only [hf, he]

/-- Digits alone are a whole number. -/
theorem readNumber_whole (hl : Leads ds) (hr : Stops rest) :
    readNumber negative (ds ++ rest) = some (numberNode negative (digitsValue ds) 0 none true, rest) := by
  simpa using readNumber_parts negative hl hr.not_isDigit hr.readFraction hr.readExponent

/-- Digits with a point among them. -/
theorem readNumber_point (hl : Leads whole) (hd : ∀ c ∈ places, c.isDigit = true) (hn : places ≠ [])
    (hr : Stops rest) :
    readNumber negative (whole ++ '.' :: (places ++ rest)) =
      some (numberNode negative (digitsValue (whole ++ places)) places.length none false, rest) :=
  readNumber_parts negative hl (by simp) (readFraction_some hd hn hr.not_isDigit) hr.readExponent

/-- Digits with a power of ten. -/
theorem readNumber_power (hl : Leads ds) (p : Int) (hr : Stops rest) :
    readNumber negative (ds ++ (powerChars p ++ rest)) =
      some (numberNode negative (digitsValue ds) 0 (some p) false, rest) := by
  have htail : ∀ c, (powerChars p ++ rest).head? = some c → c.isDigit = false := by simp [powerChars]
  have hread := readNumber_parts negative hl htail (readFraction_none (by simp [powerChars]))
    (readExponent_some p hr.not_isDigit)
  simpa using hread

/-- Digits with a point among them and a power of ten. -/
theorem readNumber_point_power (hl : Leads whole) (hd : ∀ c ∈ places, c.isDigit = true) (hn : places ≠ [])
    (p : Int) (hr : Stops rest) :
    readNumber negative (whole ++ '.' :: (places ++ (powerChars p ++ rest))) =
      some (numberNode negative (digitsValue (whole ++ places)) places.length (some p) false, rest) :=
  readNumber_parts negative hl (by simp) (readFraction_some hd hn (by simp [powerChars]))
    (readExponent_some p hr.not_isDigit)

end

/-! ## Whole numbers -/

/-- Whether a whole number has 64 bits, with or without a sign. -/
def Fits (i : Int) : Prop :=
  -(2 ^ 63 : Nat) ≤ i ∧ i < (2 ^ 64 : Nat)

/-- A sign, and the digits after it. -/
def signed (negative : Bool) (body : List Char) : List Char :=
  if negative then '-' :: body else body

theorem signed_append (negative : Bool) (body rest : List Char) :
    signed negative body ++ rest = signed negative (body ++ rest) := by
  cases negative <;> rfl

theorem toList_toString (i : Int) :
    (toString i).toList = signed (decide (i < 0)) (Nat.toDigits 10 i.natAbs) := by
  cases i with
  | ofNat n => simp [toString, Int.repr, signed]
  | negSucc n => simp [toString, Int.repr, signed, Int.negSucc_lt_zero]

theorem numberNode_whole {i : Int} (h : Fits i) :
    numberNode (decide (i < 0)) i.natAbs 0 none true = .int i := by
  obtain ⟨hlow, hhigh⟩ := h
  have hpow : Nat.pow 2 63 = 2 ^ 63 ∧ Nat.pow 2 64 = 2 ^ 64 := ⟨rfl, rfl⟩
  unfold numberNode
  rw [hpow.1, hpow.2]
  rcases lt_or_ge i 0 with hi | hi
  · have hneg : decide (i < 0) = true := decide_eq_true hi
    rw [hneg, if_neg (by simp), if_pos ⟨rfl, rfl, by omega, by omega⟩]
    congr 1
    omega
  · have hneg : decide (i < 0) = false := decide_eq_false (by omega)
    rw [hneg, if_pos ⟨rfl, rfl, by omega⟩]
    congr 1
    omega

/-! ## Decimals -/

/-- The text of a decimal after its sign. -/
def decimalChars (x : Decimal) : List Char :=
  let ds := Nat.toDigits 10 x.digits
  let point : Int := ds.length + x.exponent
  if x.digits = 0 then ['0', '.', '0']
  else if 0 < point ∧ point ≤ Decimal.pointLimit then
    if (ds.length : Int) ≤ point then ds ++ List.replicate (point.toNat - ds.length) '0' ++ ['.', '0']
    else ds.take point.toNat ++ '.' :: ds.drop point.toNat
  else if -Decimal.zeroLimit < point ∧ point ≤ 0 then
    '0' :: '.' :: (List.replicate (-point).toNat '0' ++ ds)
  else match ds with
    | [d] => d :: powerChars (point - 1)
    | d :: places => d :: '.' :: (places ++ powerChars (point - 1))
    | [] => powerChars (point - 1)

theorem toList_render (x : Decimal) : x.render.toList = signed x.negative (decimalChars x) := by
  have hsign : ∀ body : String, ((if x.negative then "-" else "") ++ body).toList = signed x.negative body.toList := by
    intro body
    cases x.negative <;> simp [signed]
  have hpower : ∀ p : Int, ((if p < 0 then "e-" else "e+") ++ toString p.natAbs).toList = powerChars p := by
    intro p
    by_cases hp : p < 0 <;> simp [powerChars, hp]
  unfold Decimal.render decimalChars
  rw [hsign]
  congr 1
  by_cases hz : x.digits = 0
  · simp [hz]
  rw [if_neg hz, if_neg hz]
  split
  · split <;> simp
  split
  · simp
  -- In scientific notation the digits decide whether there is a point.
  obtain ⟨d, places, hds⟩ := List.exists_cons_of_ne_nil (Nat.toDigits_ne_nil (n := x.digits) (b := 10))
  rw [hds]
  cases places with
  | nil => simp only [String.toList_append, hpower, String.toList_ofList, List.cons_append, List.nil_append]
  | cons c places =>
    simp only [String.toList_append, hpower, String.toList_ofList, List.cons_append]

theorem numberNode_decimal {negative : Bool} {digits places : Nat} {exponent : Option Int} {x : Decimal}
    (h : Decimal.ofParts? negative digits (exponent.getD 0 - places) = some x) :
    numberNode negative digits places exponent false = .float x := by
  simp [numberNode, h]

/-- Digits of a positive number with more digits behind them. -/
theorem Leads.append {n : Nat} (hn : 0 < n) (hd : ∀ c ∈ tail, c.isDigit = true) :
    Leads (Nat.toDigits 10 n ++ tail) := by
  refine ⟨fun c hc => ?_, fun h => Nat.toDigits_ne_nil (List.append_eq_nil_iff.1 h).1, .inr ?_⟩
  · rcases List.mem_append.1 hc with hc | hc
    · exact isDigit_of_mem_toDigits hc
    · exact hd c hc
  · rw [List.head?_append_of_ne_nil _ Nat.toDigits_ne_nil]
    exact head_toDigits hn

/-- The first digits of a positive number. -/
theorem Leads.take {n k : Nat} (hn : 0 < n) (hk : 0 < k) : Leads ((Nat.toDigits 10 n).take k) := by
  obtain ⟨d, places, hds⟩ := List.exists_cons_of_ne_nil (Nat.toDigits_ne_nil (n := n) (b := 10))
  obtain ⟨k, rfl⟩ := Nat.exists_eq_succ_of_ne_zero (Nat.pos_iff_ne_zero.1 hk)
  have hhead := head_toDigits hn
  refine ⟨fun c hc => isDigit_of_mem_toDigits (List.mem_of_mem_take hc), ?_, .inr ?_⟩
  · simp [hds]
  · rw [hds] at hhead ⊢
    exact hhead

theorem leads_zero : Leads ['0'] :=
  ⟨by simp, by simp, .inl rfl⟩

section

variable {x : Decimal} (h : x.IsKept) (hp : 0 < x.digits) (hr : Stops rest)

include h hp hr

/-- Digits with zeros up to the point, and one behind it. -/
theorem readNumber_padded {k : Nat} (hk : x.exponent = k) :
    readNumber x.negative (Nat.toDigits 10 x.digits ++ List.replicate k '0' ++ '.' :: '0' :: rest) =
      some (.float x, rest) := by
  have hvalue : digitsValue (Nat.toDigits 10 x.digits ++ List.replicate k '0' ++ ['0']) = x.digits * 10 ^ (k + 1) := by
    rw [List.append_assoc, ← List.replicate_succ', digitsValue_zeros, digitsValue_toDigits]
  have hzeros : ∀ c ∈ List.replicate k '0', c.isDigit = true := fun c hc => by simp [List.eq_of_mem_replicate hc]
  have hplace : ∀ c ∈ ['0'], c.isDigit = true := by simp
  have hread := readNumber_point x.negative (.append hp hzeros) hplace (by simp) hr
  rw [hvalue, numberNode_decimal (h.ofParts?_mul_ten hp hk)] at hread
  exact hread

/-- Digits with the point among them. -/
theorem readNumber_inside {k : Nat} (hpos : 0 < k) (hlt : k < (Nat.toDigits 10 x.digits).length)
    (hk : x.exponent = k - (Nat.toDigits 10 x.digits).length) :
    readNumber x.negative
        ((Nat.toDigits 10 x.digits).take k ++ '.' :: ((Nat.toDigits 10 x.digits).drop k ++ rest)) =
      some (.float x, rest) := by
  have hne : (Nat.toDigits 10 x.digits).drop k ≠ [] := by simpa using hlt
  have hread := readNumber_point x.negative (.take hp hpos)
    (fun c hc => isDigit_of_mem_toDigits (List.mem_of_mem_drop hc)) hne hr
  have hexp : (none : Option Int).getD 0 - (((Nat.toDigits 10 x.digits).drop k).length : Int) = x.exponent := by
    rw [List.length_drop, Option.getD_none]
    omega
  rw [List.take_append_drop, digitsValue_toDigits, numberNode_decimal (by rw [hexp]; exact h.ofParts?_self)] at hread
  exact hread

omit hp in
/-- Zeros behind the point, and the digits after them. -/
theorem readNumber_small {k : Nat} (hk : x.exponent = -(k + (Nat.toDigits 10 x.digits).length : Int)) :
    readNumber x.negative ('0' :: '.' :: (List.replicate k '0' ++ Nat.toDigits 10 x.digits ++ rest)) =
      some (.float x, rest) := by
  have hd : ∀ c ∈ List.replicate k '0' ++ Nat.toDigits 10 x.digits, c.isDigit = true := by
    intro c hc
    rcases List.mem_append.1 hc with hc | hc
    · simp [List.eq_of_mem_replicate hc]
    · exact isDigit_of_mem_toDigits hc
  have hne : List.replicate k '0' ++ Nat.toDigits 10 x.digits ≠ [] := fun h =>
    Nat.toDigits_ne_nil (List.append_eq_nil_iff.1 h).2
  have hvalue : digitsValue (['0'] ++ (List.replicate k '0' ++ Nat.toDigits 10 x.digits)) = x.digits := by
    rw [← List.append_assoc]
    exact (digitsValue_leading (k + 1) _).trans (digitsValue_toDigits _)
  have hexp : (none : Option Int).getD 0 - ((List.replicate k '0' ++ Nat.toDigits 10 x.digits).length : Int) =
      x.exponent := by
    rw [List.length_append, List.length_replicate, Option.getD_none]
    omega
  have hread := readNumber_point x.negative leads_zero hd hne hr
  rw [hvalue, numberNode_decimal (by rw [hexp]; exact h.ofParts?_self)] at hread
  exact hread

omit hp in
/-- One digit with a power of ten. -/
theorem readNumber_single {d : Char} (hds : Nat.toDigits 10 x.digits = [d]) :
    readNumber x.negative (d :: (powerChars x.exponent ++ rest)) = some (.float x, rest) := by
  have hread := readNumber_power x.negative (leads_toDigits x.digits) x.exponent hr
  have hself : Decimal.ofParts? x.negative x.digits ((some x.exponent).getD 0 - (0 : Nat)) = some x := by
    simpa using h.ofParts?_self
  rw [digitsValue_toDigits, numberNode_decimal hself, hds] at hread
  exact hread

/-- More digits with a power of ten, the point behind the first one. -/
theorem readNumber_scientific {d : Char} {places : List Char} (hds : Nat.toDigits 10 x.digits = d :: places)
    (hne : places ≠ []) :
    readNumber x.negative (d :: '.' :: (places ++ (powerChars (places.length + x.exponent) ++ rest))) =
      some (.float x, rest) := by
  have hl : Leads [d] := by
    have := Leads.take hp Nat.one_pos
    rwa [hds] at this
  have hd : ∀ c ∈ places, c.isDigit = true := fun c hc =>
    isDigit_of_mem_toDigits (n := x.digits) (by rw [hds]; exact List.mem_cons_of_mem _ hc)
  have hvalue : digitsValue ([d] ++ places) = x.digits := by
    rw [List.singleton_append, ← hds, digitsValue_toDigits]
  have hread := readNumber_point_power x.negative hl hd hne (places.length + x.exponent) hr
  have hself : Decimal.ofParts? x.negative x.digits
      ((some ((places.length : Int) + x.exponent)).getD 0 - (places.length : Int)) = some x := by
    simpa using h.ofParts?_self
  rw [hvalue, numberNode_decimal hself] at hread
  exact hread

end

/-- A written decimal is read back as itself. -/
theorem readNumber_decimal {x : Decimal} (h : x.IsKept) (hr : Stops rest) :
    readNumber x.negative (decimalChars x ++ rest) = some (.float x, rest) := by
  unfold decimalChars
  rcases Nat.eq_zero_or_pos x.digits with hz | hp
  · have hzero : numberNode x.negative (digitsValue ['0', '0']) 1 none false = .float x := by
      refine numberNode_decimal ((Decimal.ofParts?_zero _ _).trans ?_)
      rw [← hz, ← h.exponent_eq_zero hz]
    have hplace : ∀ c ∈ ['0'], c.isDigit = true := by simp
    rw [if_pos hz, ← hzero]
    exact readNumber_point x.negative leads_zero hplace (by simp) hr
  rw [if_neg (Nat.pos_iff_ne_zero.1 hp)]
  split
  · split
    · rw [List.append_assoc]
      exact readNumber_padded h hp hr (by omega)
    · rw [List.append_assoc]
      exact readNumber_inside h hp hr (by omega) (by omega) (by omega)
  split
  · exact readNumber_small h hr (by omega)
  obtain ⟨d, places, hds⟩ := List.exists_cons_of_ne_nil (Nat.toDigits_ne_nil (n := x.digits) (b := 10))
  rw [hds]
  cases places with
  | nil =>
    have hpoint : (([d] : List Char).length : Int) + x.exponent - 1 = x.exponent := by simp
    simp only [hpoint]
    exact readNumber_single h hr hds
  | cons c places =>
    have hpoint : ((d :: c :: places).length : Int) + x.exponent - 1 = (c :: places).length + x.exponent := by
      simp only [List.length_cons]
      omega
    simp only [hpoint, List.cons_append, List.append_assoc]
    exact readNumber_scientific h hp hr hds (by simp)

/-- The first character of a decimal after its sign. -/
theorem head_decimalChars (x : Decimal) : ∃ d body, decimalChars x = d :: body ∧ d.isDigit = true := by
  obtain ⟨d, places, hds⟩ := List.exists_cons_of_ne_nil (Nat.toDigits_ne_nil (n := x.digits) (b := 10))
  have hd : d.isDigit = true := isDigit_of_mem_toDigits (n := x.digits) (by simp [hds])
  simp only [decimalChars, hds]
  split
  · exact ⟨'0', _, rfl, rfl⟩
  split
  · split
    · exact ⟨d, _, rfl, hd⟩
    · obtain ⟨k, hk⟩ : ∃ k, (((d :: places).length : Int) + x.exponent).toNat = k + 1 :=
        ⟨_, (Nat.succ_pred (by omega)).symm⟩
      exact ⟨d, _, by rw [hk]; rfl, hd⟩
  split
  · exact ⟨'0', _, rfl, rfl⟩
  · cases places with
    | nil => exact ⟨d, _, rfl, hd⟩
    | cons c places => exact ⟨d, _, rfl, hd⟩

end ApiDocs.Json
