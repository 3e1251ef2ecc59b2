import Mathlib

/-! # `parse_app_pegasus_perf_counter_name` — reading `*metric@app.partition`

    A counter name is cut at its LAST `@` and its LAST `*` (`find_last_of`); the text
    after the `@` goes through `sscanf("%d.%d")`, and the metric is
    `substr(find2 + 1, find - find2 - 1)` with the length computed in `size_t`.

    * `parse_encode` — every name `prefix*metric@a.b` with int32 `a`, `b` and a metric
      free of `*` and `@` parses back to `(a, b, metric)`, whatever the prefix holds;
    * `parse_decompose` — conversely, every accepted name ends in `@` and text that
      `sscanf` reads as two `int`s, and when its last `*` comes before that `@` the metric
      is exactly the text between them;
    * `parse_accepts_star_after_at` — nothing checks that the `*` comes before the `@`:
      `"@1.2*x"` is accepted, the length `0 - 4 - 1` wraps, and the metric is `"x"`.

    A `std::string` is a sequence of `char`s; the model reads each `char` as a `Char`,
    so every byte string is the data of some `String` here. -/

namespace PegasusCounterName

/-- `std::string::find_last_of(c)`: the index of the last `c`, `none` for `npos`. -/
def findLastOf (c : Char) : List Char → Option Nat
  | [] => none
  | x :: xs =>
      match findLastOf c xs with
      | some i => some (i + 1)
      | none => if x = c then some 0 else none

/-- `std::string::substr(pos, len)`, for `pos ≤ size()`. -/
def substr (cs : List Char) (pos len : Nat) : List Char := (cs.drop pos).take len

/-- `find - find2 - 1` with `std::string::size_type` operands: exact when `find2 < find`,
    wrapped below 2^64 otherwise (the positions of a `std::string` are below 2^64). -/
def sizeSub (find find2 : Nat) : Nat :=
  if find2 < find then find - find2 - 1 else 2 ^ 64 - (find2 + 1 - find)

/-- The characters `isspace` accepts in the C locale. -/
def isCSpace (c : Char) : Bool :=
  c = ' ' || c = '\t' || c = '\n' || c = '\x0b' || c = '\x0c' || c = '\r'

/-- The value of a string of decimal digits. -/
def digitsValue (ds : List Char) : Nat :=
  ds.foldl (fun n d => 10 * n + (d.toNat - '0'.toNat)) 0

/-- `strtol`'s result: the value clamped to `long`. -/
def clampLong (v : Int) : Int := max (-2 ^ 63) (min v (2 ^ 63 - 1))

/-- Storing a `long` into an `int32_t`: the value modulo 2^32, in `[-2^31, 2^31)`. -/
def toInt32 (v : Int) : Int := Int.bmod v (2 ^ 32)

/-- The sign of a `%d` conversion: `true` for a leading `-`. -/
def scanSign : List Char → Bool × List Char
  | '-' :: rest => (true, rest)
  | '+' :: rest => (false, rest)
  | cs => (false, cs)

/-- One `%d` conversion of `sscanf`: white space, an optional sign and at least one
    digit; the value and the unread rest. -/
def scanInt (cs : List Char) : Option (Int × List Char) :=
  let (neg, body) := scanSign (cs.dropWhile isCSpace)
  let ds := body.takeWhile Char.isDigit
  if ds = [] then none
  else
    let v : Int := digitsValue ds
    some (toInt32 (clampLong (if neg then -v else v)), body.dropWhile Char.isDigit)

/-- `sscanf(s, "%d.%d", &app_id, &partition_index)` when it returns 2, with the two
    values stored. -/
def sscanfIntDotInt (cs : List Char) : Option (Int × Int) :=
  match scanInt cs with
  | some (a, '.' :: rest) =>
      match scanInt rest with
      | some (b, _) => some (a, b)
      | none => none
  | _ => none

/-- `parse_app_pegasus_perf_counter_name`: `some (app_id, partition_index, counter_name)`
    exactly when it returns true.  (On a false return no caller reads the outputs.) -/
def parseAppPegasusPerfCounterName (name : String) : Option (Int × Int × String) :=
  match findLastOf '@' name.data with
  | none => none
  | some find =>
      match sscanfIntDotInt (name.data.drop (find + 1)) with
      | none => none
      | some (appId, partitionIndex) =>
          match findLastOf '*' name.data with
          | none => none
          | some find2 =>
              some (appId, partitionIndex, ⟨substr name.data (find2 + 1) (sizeSub find find2)⟩)

-- ── `find_last_of` ───────────────────────────────────────────────────────────────────

theorem findLastOf_eq_none {c : Char} {l : List Char} (h : c ∉ l) : findLastOf c l = none := by
  induction l with
  | nil => rfl
  | cons x l ih =>
    simp only [List.mem_cons, not_or] at h
    simp [findLastOf, ih h.2, Ne.symm h.1]

theorem findLastOf_append {c : Char} (l m : List Char) :
    findLastOf c (l ++ m) =
      match findLastOf c m with
      | some i => some (l.length + i)
      | none => findLastOf c l := by
  induction l with
  | nil => cases h : findLastOf c m <;> simp [h, findLastOf]
  | cons x l ih =>
    simp only [List.cons_append, findLastOf, List.length_cons, List.append_eq]
    rw [ih]
    cases findLastOf c m <;> simp [Nat.add_right_comm]

/-- The last `c` of `l ++ c :: m`, when `m` has none, is the one between. -/
theorem findLastOf_last {c : Char} (l m : List Char) (h : c ∉ m) :
    findLastOf c (l ++ c :: m) = some l.length := by
  rw [findLastOf_append, findLastOf, findLastOf_eq_none h]
  simp

/-- When `find_last_of` finds no `c`, there is none. -/
theorem not_mem_of_findLastOf {c : Char} {l : List Char} (h : findLastOf c l = none) : c ∉ l := by
  induction l with
  | nil => simp
  | cons x l ih =>
    rw [findLastOf] at h
    rcases hl : findLastOf c l with _ | i
    · rw [hl] at h
      split_ifs at h with hx
      simp [ih hl, Ne.symm hx]
    · rw [hl] at h; cases h

/-- Where `find_last_of` finds `c`: a `c` with none after it. -/
theorem findLastOf_some {c : Char} : ∀ {l : List Char} {i : Nat}, findLastOf c l = some i →
    ∃ pre suf, l = pre ++ c :: suf ∧ c ∉ suf ∧ pre.length = i
  | [], _, h => by cases h
  | x :: xs, i, h => by
    rw [findLastOf] at h
    rcases hx : findLastOf c xs with _ | j
    · rw [hx] at h
      split_ifs at h with hxc
      cases h
      exact ⟨[], xs, by rw [hxc]; rfl, not_mem_of_findLastOf hx, rfl⟩
    · rw [hx] at h
      cases h
      obtain ⟨pre, suf, rfl, hsuf, rfl⟩ := findLastOf_some hx
      exact ⟨x :: pre, suf, rfl, hsuf, rfl⟩

-- ── Decimal renderings ───────────────────────────────────────────────────────────────

theorem digitChar_spec : ∀ d < 10,
    (Nat.digitChar d).isDigit = true ∧ (Nat.digitChar d).toNat - '0'.toNat = d := by
  decide

theorem digitsValue_append_digit (ds : List Char) (c : Char) :
    digitsValue (ds ++ [c]) = 10 * digitsValue ds + (c.toNat - '0'.toNat) := by
  simp [digitsValue, List.foldl_append]

/-- `toDigitsCore` puts the digits of `n` in front of what it is given. -/
theorem toDigitsCore_append (fuel n : Nat) (ds : List Char) (h : n < fuel) :
    Nat.toDigitsCore 10 fuel n ds = Nat.toDigitsCore 10 fuel n [] ++ ds := by
  induction fuel generalizing n ds with
  | zero => omega
  | succ fuel ih =>
    simp only [Nat.toDigitsCore]
    split
    · rfl
    · rw [ih (n / 10) _ (by omega), ih (n / 10) [_] (by omega)]
      simp

/-- The digits `toDigitsCore` writes are decimal digits, at least one, and read back as `n`. -/
theorem toDigitsCore_spec (fuel n : Nat) (h : n < fuel) :
    (∀ c ∈ Nat.toDigitsCore 10 fuel n [], c.isDigit = true) ∧
      digitsValue (Nat.toDigitsCore 10 fuel n []) = n ∧ Nat.toDigitsCore 10 fuel n [] ≠ [] := by
  induction fuel generalizing n with
  | zero => omega
  | succ fuel ih =>
    have hd := digitChar_spec (n % 10) (Nat.mod_lt _ (by omega))
    simp only [Nat.toDigitsCore]
    split
    · next h0 =>
      refine ⟨by simpa using hd.1, ?_, by simp⟩
      simp only [digitsValue, List.foldl_cons, List.foldl_nil, hd.2]
      omega
    · next h0 =>
      obtain ⟨ih1, ih2, ih3⟩ := ih (n / 10) (by omega)
      rw [toDigitsCore_append _ _ _ (by omega), digitsValue_append_digit, ih2, hd.2]
      refine ⟨fun c hc => ?_, by omega, by simp⟩
      simp only [List.mem_append, List.mem_singleton] at hc
      rcases hc with hc | rfl
      exacts [ih1 c hc, hd.1]

/-- `toString` of an `Int`: a `-` for negatives, then the decimal digits of the magnitude. -/
theorem toString_int_data (a : Int) :
    (toString a).data = (if a < 0 then ['-'] else []) ++ Nat.toDigits 10 a.natAbs := by
  cases a with
  | ofNat m =>
    have h : ¬ Int.ofNat m < 0 := Int.not_lt.mpr (Int.ofNat_zero_le m)
    rw [if_neg h]; rfl
  | negSucc m => rw [if_pos (Int.negSucc_lt_zero m)]; rfl

/-- A value an `int` holds converts to itself. -/
theorem toInt32_eq_self {v : Int} (h : -2 ^ 31 ≤ v ∧ v < 2 ^ 31) : toInt32 v = v := by
  have e31 : (2 : Int) ^ 31 = 2147483648 := rfl
  have e32 : ((2 ^ 32 : Nat) : Int) = 4294967296 := rfl
  rw [e31] at h
  rw [toInt32, Int.bmod_def, e32]
  split <;> omega

theorem toInt32_clampLong {v : Int} (h : -2 ^ 31 ≤ v ∧ v < 2 ^ 31) : toInt32 (clampLong v) = v := by
  have e31 : (2 : Int) ^ 31 = 2147483648 := rfl
  have e63 : (2 : Int) ^ 63 = 9223372036854775808 := rfl
  rw [e31] at h
  have hc : clampLong v = v := by simp only [clampLong, e63]; omega
  rw [hc, toInt32_eq_self (by rw [e31]; exact h)]

/-- Every value stored into an `int32_t` is in its range. -/
theorem toInt32_range (v : Int) : -2 ^ 31 ≤ toInt32 v ∧ toInt32 v < 2 ^ 31 := by
  have h1 := Int.le_bmod (x := v) (m := 2 ^ 32) (by norm_num)
  have h2 := Int.bmod_lt (x := v) (m := 2 ^ 32) (by norm_num)
  exact ⟨by rw [toInt32]; norm_num at h1 ⊢; omega, by rw [toInt32]; norm_num at h2 ⊢; omega⟩

/-- What one `%d` conversion stores is an `int`. -/
theorem scanInt_range {cs rest : List Char} {v : Int} (h : scanInt cs = some (v, rest)) :
    -2 ^ 31 ≤ v ∧ v < 2 ^ 31 := by
  unfold scanInt at h
  dsimp only at h
  split at h
  · cases h
  · cases h; exact toInt32_range _

/-- What `sscanf` reads into the two `int`s is in their range. -/
theorem sscanfIntDotInt_range {cs : List Char} {a b : Int} (h : sscanfIntDotInt cs = some (a, b)) :
    (-2 ^ 31 ≤ a ∧ a < 2 ^ 31) ∧ (-2 ^ 31 ≤ b ∧ b < 2 ^ 31) := by
  unfold sscanfIntDotInt at h
  split at h
  · next ha =>
    split at h
    · next hb => cases h; exact ⟨scanInt_range ha, scanInt_range hb⟩
    · cases h
  · cases h

-- ── Reading a rendered number back ───────────────────────────────────────────────────

theorem isCSpace_eq_false {c : Char} (h : c.isDigit = true ∨ c = '-') : isCSpace c = false := by
  have hne : ∀ d : Char, d.isDigit = false → d ≠ '-' → c ≠ d := by
    rintro d hd hm rfl
    rcases h with h | h
    · rw [h] at hd; exact Bool.noConfusion hd
    · exact hm h
  simp only [isCSpace, Bool.or_eq_false_iff, decide_eq_false_iff_not]
  exact ⟨⟨⟨⟨⟨hne _ rfl (by decide), hne _ rfl (by decide)⟩, hne _ rfl (by decide)⟩,
    hne _ rfl (by decide)⟩, hne _ rfl (by decide)⟩, hne _ rfl (by decide)⟩

theorem scanSign_of_isDigit {c : Char} (h : c.isDigit = true) (t : List Char) :
    scanSign (c :: t) = (false, c :: t) := by
  have h1 : c ≠ '-' := by rintro rfl; exact Bool.noConfusion h
  have h2 : c ≠ '+' := by rintro rfl; exact Bool.noConfusion h
  unfold scanSign
  split <;> simp_all

theorem takeWhile_dropWhile_of_head {p : Char → Bool} {l : List Char}
    (h : ∀ c ∈ l.head?, p c = false) : l.takeWhile p = [] ∧ l.dropWhile p = l := by
  cases l with
  | nil => exact ⟨rfl, rfl⟩
  | cons c t =>
    have hc : ¬ p c = true := by simp [h c rfl]
    exact ⟨List.takeWhile_cons_of_neg hc, List.dropWhile_cons_of_neg hc⟩

/-- `scanInt` once the sign is read and a digit follows. -/
theorem scanInt_eq {cs body : List Char} {neg : Bool}
    (hs : scanSign (cs.dropWhile isCSpace) = (neg, body)) (hds : body.takeWhile Char.isDigit ≠ []) :
    scanInt cs = some (toInt32 (clampLong (if neg then -(digitsValue (body.takeWhile Char.isDigit) : Int)
      else digitsValue (body.takeWhile Char.isDigit))), body.dropWhile Char.isDigit) := by
  simp only [scanInt, hs, hds, if_false]

theorem toDigits_spec (n : Nat) :
    (∀ c ∈ Nat.toDigits 10 n, c.isDigit = true) ∧ digitsValue (Nat.toDigits 10 n) = n ∧
      Nat.toDigits 10 n ≠ [] :=
  toDigitsCore_spec (n + 1) n (by omega)

/-- `%d` reads back a rendered int32 and stops at the first non-digit. -/
theorem scanInt_toString {a : Int} (ha : -2 ^ 31 ≤ a ∧ a < 2 ^ 31) (rest : List Char)
    (hrest : ∀ c ∈ rest.head?, c.isDigit = false) :
    scanInt ((toString a).data ++ rest) = some (a, rest) := by
  obtain ⟨hdig, hval, hne⟩ := toDigits_spec a.natAbs
  obtain ⟨ht, hd⟩ := takeWhile_dropWhile_of_head hrest
  have htake : (Nat.toDigits 10 a.natAbs ++ rest).takeWhile Char.isDigit =
      Nat.toDigits 10 a.natAbs := by
    rw [List.takeWhile_append_of_pos hdig, ht, List.append_nil]
  have hdrop : (Nat.toDigits 10 a.natAbs ++ rest).dropWhile Char.isDigit = rest := by
    rw [List.dropWhile_append_of_pos hdig, hd]
  rw [toString_int_data]
  by_cases hneg : a < 0
  · have hsp : ¬ isCSpace '-' = true := by simp [isCSpace_eq_false (.inr rfl)]
    have hs : scanSign ((['-'] ++ Nat.toDigits 10 a.natAbs ++ rest).dropWhile isCSpace) =
        (true, Nat.toDigits 10 a.natAbs ++ rest) := by
      rw [List.singleton_append, List.cons_append, List.dropWhile_cons_of_neg hsp]; rfl
    rw [if_pos hneg, scanInt_eq hs (by rwa [htake]), htake, hdrop, hval, if_pos rfl,
      show -(a.natAbs : Int) = a by omega, toInt32_clampLong ha]
  · obtain ⟨c, t, hct⟩ := List.exists_cons_of_ne_nil hne
    have hc : c.isDigit = true := hdig c (by rw [hct]; exact List.mem_cons_self _ _)
    have hsp : ¬ isCSpace c = true := by simp [isCSpace_eq_false (.inl hc)]
    have hs : scanSign (([] ++ Nat.toDigits 10 a.natAbs ++ rest).dropWhile isCSpace) =
        (false, Nat.toDigits 10 a.natAbs ++ rest) := by
      rw [List.nil_append, hct, List.cons_append, List.dropWhile_cons_of_neg hsp,
        scanSign_of_isDigit hc]
    rw [if_neg hneg, scanInt_eq hs (by rwa [htake]), htake, hdrop, hval, if_neg (by decide),
      show (a.natAbs : Int) = a by omega, toInt32_clampLong ha]

/-- The characters of a rendered `Int` are digits and `-`. -/
theorem toString_int_chars {a : Int} {c : Char} (h : c ∈ (toString a).data) :
    c.isDigit = true ∨ c = '-' := by
  rw [toString_int_data] at h
  rcases List.mem_append.mp h with h | h
  · split at h <;> simp_all
  · exact .inl ((toDigits_spec _).1 c h)

/-- Nothing but digits, `-` and `.` is in a rendered `a.b`. -/
theorem not_mem_toString_dot (c : Char) (hd : c.isDigit = false) (hm : c ≠ '-') (hdot : c ≠ '.')
    (a b : Int) : c ∉ (toString a).data ++ '.' :: (toString b).data := by
  have hnum : ∀ n : Int, c ∉ (toString n).data := fun n hc => by
    rcases toString_int_chars hc with h | h
    · rw [hd] at h; exact Bool.noConfusion h
    · exact hm h
  simp only [List.mem_append, List.mem_cons, not_or]
  exact ⟨hnum a, hdot, hnum b⟩

theorem sscanfIntDotInt_toString {a b : Int} (ha : -2 ^ 31 ≤ a ∧ a < 2 ^ 31)
    (hb : -2 ^ 31 ≤ b ∧ b < 2 ^ 31) :
    sscanfIntDotInt ((toString a).data ++ '.' :: (toString b).data) = some (a, b) := by
  have hb' := scanInt_toString hb [] (by simp)
  rw [List.append_nil] at hb'
  simp only [sscanfIntDotInt, scanInt_toString ha ('.' :: (toString b).data) (by simp), hb']

-- ── The parser ───────────────────────────────────────────────────────────────────────

theorem drop_past (l rest : List Char) (c : Char) : (l ++ c :: rest).drop (l.length + 1) = rest := by
  rw [← List.singleton_append, ← List.append_assoc]
  exact List.drop_left' (by rw [List.length_append, List.length_singleton])

/-- The `substr` between a delimiter and what follows the metric. -/
theorem substr_between (l m rest : List Char) (c : Char) :
    substr (l ++ c :: (m ++ rest)) (l.length + 1) m.length = m := by
  rw [substr, drop_past, List.take_left' rfl]

/-- **ROUND TRIP.**  `prefix*metric@a.b` parses back to `(a, b, metric)` for every prefix,
    every int32 `a` and `b`, and every metric without `*` or `@`: the last `@` and the
    last `*` are the ones the encoding put there. -/
theorem parse_encode (pre m : String) (a b : Int) (hm : '*' ∉ m.data ∧ '@' ∉ m.data)
    (ha : -2 ^ 31 ≤ a ∧ a < 2 ^ 31) (hb : -2 ^ 31 ≤ b ∧ b < 2 ^ 31) :
    parseAppPegasusPerfCounterName (pre ++ "*" ++ m ++ "@" ++ toString a ++ "." ++ toString b) =
      some (a, b, m) := by
  have hdata : (pre ++ "*" ++ m ++ "@" ++ toString a ++ "." ++ toString b).data =
      (pre.data ++ '*' :: m.data) ++ '@' :: ((toString a).data ++ '.' :: (toString b).data) := by
    simp
  have hat := findLastOf_last (pre.data ++ '*' :: m.data) _
    (not_mem_toString_dot '@' rfl (by decide) (by decide) a b)
  have hstar : findLastOf '*' (pre.data ++ '*' :: m.data ++ '@' :: ((toString a).data ++
      '.' :: (toString b).data)) = some pre.data.length := by
    rw [List.append_assoc, List.cons_append]
    refine findLastOf_last _ _ ?_
    refine fun h => (List.mem_append.mp h).elim hm.1 fun h => (List.mem_cons.mp h).elim
      (by decide) (not_mem_toString_dot '*' rfl (by decide) (by decide) a b)
  have hdrop := drop_past (pre.data ++ '*' :: m.data) ((toString a).data ++ '.' :: (toString b).data) '@'
  have hlen : sizeSub (pre.data ++ '*' :: m.data).length pre.data.length = m.data.length := by
    rw [sizeSub, List.length_append, List.length_cons, if_pos (by omega)]; omega
  simp only [parseAppPegasusPerfCounterName, hdata, hat, hdrop, sscanfIntDotInt_toString ha hb,
    hstar, hlen]
  rw [List.append_assoc, List.cons_append, substr_between]

theorem parse_encode_sample :
    ('*' ∉ "get_qps".data ∧ '@' ∉ "get_qps".data) ∧ (-2 ^ 31 ≤ (7 : Int) ∧ (7 : Int) < 2 ^ 31) ∧
      (-2 ^ 31 ≤ (3 : Int) ∧ (3 : Int) < 2 ^ 31) ∧
      parseAppPegasusPerfCounterName ("rdb" ++ "*" ++ "get_qps" ++ "@" ++ toString (7 : Int) ++
        "." ++ toString (3 : Int)) = some (7, 3, "get_qps") :=
  ⟨by decide, by decide, by decide, parse_encode "rdb" "get_qps" 7 3 (by decide) (by decide) (by decide)⟩

/-- **WHAT AN ACCEPTED NAME IS.**  Whenever the parser accepts a name, the name is
    `pre ++ '@' :: suffix` with no `@` in `suffix`, `sscanf("%d.%d")` reads the app id and
    the partition index from `suffix`, and both are `int` values; and when no `*` follows
    that last `@`, `pre` ends with `'*' :: metric` with no `*` in the metric: the metric is
    exactly the text between the last `*` and the last `@`. -/
theorem parse_decompose (name : String) {a b : Int} {m : String}
    (h : parseAppPegasusPerfCounterName name = some (a, b, m)) :
    (-2 ^ 31 ≤ a ∧ a < 2 ^ 31) ∧ (-2 ^ 31 ≤ b ∧ b < 2 ^ 31) ∧
      ∃ pre suffix, name.data = pre ++ '@' :: suffix ∧ '@' ∉ suffix ∧
        sscanfIntDotInt suffix = some (a, b) ∧
        ('*' ∉ suffix → ∃ pre', pre = pre' ++ '*' :: m.data ∧ '*' ∉ m.data) := by
  unfold parseAppPegasusPerfCounterName at h
  split at h
  · cases h
  next find hat =>
  split at h
  · cases h
  next a' b' hsc =>
  split at h
  · cases h
  next find2 hst =>
  cases h
  obtain ⟨pre, suf, hname, hsuf, hlen⟩ := findLastOf_some hat
  have hdrop : name.data.drop (find + 1) = suf := by rw [hname, ← hlen, drop_past]
  rw [hdrop] at hsc
  refine ⟨(sscanfIntDotInt_range hsc).1, (sscanfIntDotInt_range hsc).2, pre, suf, hname, hsuf, hsc,
    fun hstar => ?_⟩
  -- the last `*` lies before the last `@`, in `pre`
  have hpre : findLastOf '*' pre = some find2 := by
    rw [hname, findLastOf_append, findLastOf_eq_none (by simp [hstar])] at hst
    exact hst
  obtain ⟨pre', mid, rfl, hmid, hlen'⟩ := findLastOf_some hpre
  have hsize : sizeSub find find2 = mid.length := by
    rw [sizeSub, ← hlen, ← hlen', List.length_append, List.length_cons, if_pos (by omega)]
    omega
  have hsub : substr name.data (find2 + 1) (sizeSub find find2) = mid := by
    rw [hsize, hname, List.append_assoc, List.cons_append, ← hlen', substr_between]
  exact ⟨pre', by rw [hsub], by rwa [hsub]⟩

theorem parse_decompose_sample :
    parseAppPegasusPerfCounterName "rdb*get_qps@7.3" = some (7, 3, "get_qps") ∧
      ((-2 ^ 31 ≤ (7 : Int) ∧ (7 : Int) < 2 ^ 31) ∧ (-2 ^ 31 ≤ (3 : Int) ∧ (3 : Int) < 2 ^ 31) ∧
        ∃ pre suffix, "rdb*get_qps@7.3".data = pre ++ '@' :: suffix ∧ '@' ∉ suffix ∧
          sscanfIntDotInt suffix = some (7, 3) ∧
          ('*' ∉ suffix → ∃ pre', pre = pre' ++ '*' :: "get_qps".data ∧ '*' ∉ "get_qps".data)) :=
  let h : parseAppPegasusPerfCounterName "rdb*get_qps@7.3" = some (7, 3, "get_qps") := by decide
  ⟨h, parse_decompose _ h⟩

/-- `"@1.2*x"`: the last `*` (index 4) comes after the last `@` (index 0), the length
    `0 - 4 - 1` wraps, and the name is accepted with the metric `"x"`. -/
theorem parse_accepts_star_after_at :
    findLastOf '@' "@1.2*x".data = some 0 ∧ findLastOf '*' "@1.2*x".data = some 4 ∧
      parseAppPegasusPerfCounterName "@1.2*x" = some (1, 2, "x") := by
  decide

end PegasusCounterName
