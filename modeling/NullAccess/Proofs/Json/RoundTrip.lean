import NullAccess.Proofs.Json.Bounds
import NullAccess.Proofs.Json.Sorted

/-!
# Reading canonical text

The canonical text of a plain value is read back as that value with sorted fields
(`parse?_canonical`), and in a file too if the value fits there (`parseFile_canonical`).  Every
reader takes a bound on its steps; the length of the text that it is to read is bound enough, and
each reader hands on to the next a text that is shorter by the bracket, comma or quote it read
itself.
-/

namespace NullAccess.Json

/-! ## Strings -/

theorem hexValue?_hexDigit {n : Nat} (h : n < 16) : Text.hexValue? (hexDigit n) = some n := by
  have hall : ∀ n < 16, Text.hexValue? (hexDigit n) = some n := by decide
  exact hall n h

theorem readUnicode_control {n : Nat} (h : n < 32) (rest : List Char) :
    readUnicode ('0' :: '0' :: hexDigit (n / 16) :: hexDigit (n % 16) :: rest) =
      some (some (Char.ofNat n), rest) := by
  have hhex : readHex4 ('0' :: '0' :: hexDigit (n / 16) :: hexDigit (n % 16) :: rest) =
      some (n, rest) := by
    have hzero : Text.hexValue? '0' = some 0 := by decide
    have hhigh := hexValue?_hexDigit (n := n / 16) (by omega)
    have hlow := hexValue?_hexDigit (n := n % 16) (by omega)
    have hsum : 4096 * 0 + 256 * 0 + 16 * (n / 16) + n % 16 = n := by omega
    simp only [readHex4, hzero, hhigh, hlow, Option.bind_eq_bind, Option.bind_some, hsum]
  have hhigh : ¬ (0xD800 ≤ n ∧ n < 0xDC00) := by omega
  have hlow : ¬ (0xDC00 ≤ n ∧ n < 0xE000) := by omega
  simp only [readUnicode, hhex, if_neg hhigh, if_neg hlow]

/-- An escaped character is read in one step. -/
theorem readChars_escape (c b : Char) (bound rest : List Char) :
    readChars (b :: bound) (escape c ++ rest) =
      (readChars bound rest).map fun (cs, rest) => (some c :: cs, rest) := by
  unfold escape
  split
  · subst_vars; rfl
  split
  · subst_vars; rfl
  split
  · subst_vars; rfl
  split
  · subst_vars; rfl
  split
  · subst_vars; rfl
  split
  · subst_vars; rfl
  split
  · subst_vars; rfl
  split
  · rename_i hcontrol
    simp only [List.cons_append, List.nil_append, readChars, readUnicode_control hcontrol,
      Char.ofNat_toNat, Option.bind_some]
  · rename_i hquote hslash _ _ _ _ _ hcontrol
    have hplain : ¬ (c.toNat < 32 ∨ c = '\\') := by simp [hcontrol, hslash]
    rw [List.cons_append, List.nil_append, readChars, if_neg hplain]
    · exact hquote
    · exact fun _ h => absurd h hslash
    · exact fun _ _ h => absurd h hslash

theorem readChars_escaped (cs rest : List Char) {bound : List Char}
    (h : cs.length < bound.length) :
    readChars bound (cs.flatMap escape ++ '"' :: rest) = some (cs.map some, rest) := by
  induction cs generalizing bound with
  | nil =>
    obtain ⟨b, bound, rfl⟩ := List.exists_cons_of_length_pos h
    rfl
  | cons c cs ih =>
    obtain ⟨b, bound, rfl⟩ := List.exists_cons_of_length_pos (Nat.zero_lt_of_lt h)
    have hshorter : cs.length < bound.length := by simpa using h
    rw [List.flatMap_cons, List.append_assoc, readChars_escape, ih hshorter]
    rfl

theorem length_le_length_escaped (cs : List Char) : cs.length ≤ (cs.flatMap escape).length := by
  induction cs with
  | nil => simp
  | cons c cs ih =>
    have hpos : 1 ≤ (escape c).length := by
      unfold escape
      repeat' split
      all_goals simp
    rw [List.flatMap_cons, List.length_append, List.length_cons]
    omega

/-- A quoted string, without its first quote, is its own bound. -/
theorem readChars_quoted (s : String) (rest : List Char) :
    readChars (s.toList.flatMap escape ++ '"' :: rest) (s.toList.flatMap escape ++ '"' :: rest) =
      some (s.toList.map some, rest) := by
  apply readChars_escaped
  have hle := length_le_length_escaped s.toList
  rw [List.length_append, List.length_cons]
  omega

theorem quote_append (s : String) (rest : List Char) :
    quote s ++ rest = '"' :: (s.toList.flatMap escape ++ '"' :: rest) := by
  simp [quote]

theorem isText_map_some (cs : List Char) : isText (cs.map some) = true := by
  simp [isText]

theorem textOf_map_some (s : String) : textOf (s.toList.map some) = s := by
  simp [textOf, Function.comp_def]

/-! ## Numbers -/

/-- The text behind a value goes on with a comma or a new line. -/
def Ends (rest : List Char) : Prop := ∃ c r, rest = c :: r ∧ (c = ',' ∨ c = '\n')

theorem Ends.takeWhile_isDigit {rest : List Char} (h : Ends rest) :
    rest.takeWhile Char.isDigit = [] ∧ rest.dropWhile Char.isDigit = rest := by
  obtain ⟨c, r, rfl, rfl | rfl⟩ := h <;> exact ⟨rfl, rfl⟩

theorem Ends.readFraction {rest : List Char} (h : Ends rest) : readFraction rest = ([], rest) := by
  obtain ⟨c, r, rfl, rfl | rfl⟩ := h <;> rfl

theorem Ends.readExponent {rest : List Char} (h : Ends rest) :
    readExponent rest = (none, rest) := by
  obtain ⟨c, r, rfl, rfl | rfl⟩ := h <;> rfl

/-- The digits of a number that is not 0 do not begin with a zero. -/
theorem head?_toDigits_ne {n : Nat} (h : n ≠ 0) : (Nat.toDigits 10 n).head? ≠ some '0' := by
  induction n using Nat.strongRecOn with
  | ind n ih =>
    by_cases hlt : n < 10
    · have hall : ∀ n < 10, n ≠ 0 → (Nat.toDigits 10 n).head? ≠ some '0' := by decide
      exact hall n hlt h
    · rw [Nat.toDigits_of_base_le (by omega) (by omega), List.head?_append]
      obtain ⟨c, r, hcr⟩ := List.exists_cons_of_ne_nil (Nat.toDigits_ne_nil (b := 10) (n := n / 10))
      have hrec := ih (n / 10) (by omega) (by omega)
      rw [hcr] at hrec ⊢
      simpa using hrec

theorem digitsValue_toDigits (n : Nat) : digitsValue (Nat.toDigits 10 n) = n :=
  Nat.ofDigitChars_toDigits (by omega) (by omega)

theorem all_isDigit_toDigits (n : Nat) : ∀ c ∈ Nat.toDigits 10 n, c.isDigit = true :=
  fun _ hc => Nat.isDigit_of_mem_toDigits (by omega) (by omega) hc

theorem readWhole_toDigits (n : Nat) {rest : List Char} (h : Ends rest) :
    readWhole (Nat.toDigits 10 n ++ rest) = some (Nat.toDigits 10 n, rest) := by
  by_cases hn : n = 0
  · subst hn
    rfl
  · have hspan : (Nat.toDigits 10 n ++ rest).takeWhile Char.isDigit = Nat.toDigits 10 n ∧
        (Nat.toDigits 10 n ++ rest).dropWhile Char.isDigit = rest := by
      rw [List.takeWhile_append_of_pos (all_isDigit_toDigits n),
        List.dropWhile_append_of_pos (all_isDigit_toDigits n), h.takeWhile_isDigit.1,
        h.takeWhile_isDigit.2, List.append_nil]
      exact ⟨rfl, rfl⟩
    have hhead := head?_toDigits_ne hn
    have hdigit := all_isDigit_toDigits n
    obtain ⟨c, r, hcr⟩ := List.exists_cons_of_ne_nil (Nat.toDigits_ne_nil (b := 10) (n := n))
    rw [hcr] at hspan hhead hdigit ⊢
    have hzero : c ≠ '0' := by simpa using hhead
    have hc : c.isDigit = true := hdigit c List.mem_cons_self
    rw [List.cons_append] at hspan ⊢
    rw [readWhole, if_pos hc, hspan.1, hspan.2]
    exact fun heq => hzero heq

theorem ne_of_isDigit {c d : Char} (hc : c.isDigit = true) (hd : d.isDigit = false) : c ≠ d := by
  rintro rfl
  rw [hc] at hd
  cases hd

theorem not_mem_of_isDigit {c : Char} {cs : List Char} (hc : c.isDigit = true)
    (hcs : ∀ d ∈ cs, d.isDigit = false) : c ∉ cs :=
  fun hmem => ne_of_isDigit hc (hcs c hmem) rfl

/-- A text that begins with none of the first letters of a word is no word. -/
theorem readWord_eq_none {c : Char} (r : List Char)
    (hc : c ∉ ['n', 't', 'f', 'N', 'I', '-']) : readWord (c :: r) = none := by
  simp only [List.mem_cons, List.not_mem_nil, or_false, not_or] at hc
  obtain ⟨hn, ht, hf, hN, hI, hminus⟩ := hc
  simp [readWord, after?, Ne.symm hn, Ne.symm ht, Ne.symm hf, Ne.symm hN, Ne.symm hI,
    Ne.symm hminus]

theorem readWord_minus {c : Char} (r : List Char) (hc : c.isDigit = true) :
    readWord ('-' :: c :: r) = none := by
  have hI : 'I' ≠ c := (ne_of_isDigit hc (by decide)).symm
  simp [readWord, after?, hI]

theorem readInteger_eq {confined : Bool} {whole : List Char}
    (h : (confined && !Text.isWritable (digitsValue whole)) = false) (negative : Bool) :
    readInteger confined negative whole =
      .ok (int (if negative then -(digitsValue whole : Int) else digitsValue whole)) := by
  rw [readInteger, h]
  rfl

theorem readNumber_toDigits {confined : Bool} {n : Nat}
    (hwritable : (confined && !Text.isWritable n) = false) {rest : List Char} (h : Ends rest) :
    readNumber confined (Nat.toDigits 10 n ++ rest) = .ok (int n, rest) := by
  have hdigit := all_isDigit_toDigits n
  have hwhole := readWhole_toDigits n h
  have hvalue := digitsValue_toDigits n
  have hint := readInteger_eq (hvalue.symm ▸ hwritable) false
  obtain ⟨c, r, hcr⟩ := List.exists_cons_of_ne_nil (Nat.toDigits_ne_nil (b := 10) (n := n))
  have hminus : c ≠ '-' := by
    rw [hcr] at hdigit
    exact ne_of_isDigit (hdigit c List.mem_cons_self) (by decide)
  rw [hcr] at hwhole hvalue hint ⊢
  rw [List.cons_append] at hwhole ⊢
  simp [readNumber, splitMinus, hminus, hwhole, h.readFraction, h.readExponent, hvalue, hint,
    Except.map]

theorem readNumber_minus {confined : Bool} {n : Nat}
    (hwritable : (confined && !Text.isWritable n) = false) {rest : List Char} (h : Ends rest) :
    readNumber confined ('-' :: (Nat.toDigits 10 n ++ rest)) = .ok (int (-n), rest) := by
  have hvalue := digitsValue_toDigits n
  have hint := readInteger_eq (hvalue.symm ▸ hwritable) true
  simp [readNumber, splitMinus, readWhole_toDigits n h, h.readFraction,
    h.readExponent, hint, hvalue, Except.map]

/-- A value that begins with neither a quote nor a bracket is a word or a number. -/
theorem readValue_scalar {c : Char} (fuel : Nat) (room : Option Nat) (r : List Char)
    (hc : c ∉ ['"', '[', '{']) :
    readValue (fuel + 1) room (c :: r) =
      match readWord (c :: r) with
      | some found => .ok found
      | none => readNumber room.isSome (c :: r) := by
  simp only [List.mem_cons, List.not_mem_nil, or_false, not_or] at hc
  rw [readValue.eq_def]
  dsimp only
  split
  · rename_i heq
    exact absurd (List.cons.inj heq).1 hc.1
  · rename_i heq
    exact absurd (List.cons.inj heq).1 hc.2.1
  · rename_i heq
    exact absurd (List.cons.inj heq).1 hc.2.2
  · rfl

theorem readValue_renderInt {room : Option Nat} {k : Int} (hfits : Fits room (int k)) (fuel : Nat)
    {rest : List Char} (h : Ends rest) :
    readValue (fuel + 1) room (renderInt k ++ rest) = .ok (int k, rest) := by
  have hwritable := hfits.int
  cases k with
  | ofNat n =>
    have hdigit := all_isDigit_toDigits n
    have hnumber := readNumber_toDigits (n := n) hwritable h
    rw [renderInt]
    obtain ⟨c, r, hcr⟩ := List.exists_cons_of_ne_nil (Nat.toDigits_ne_nil (b := 10) (n := n))
    rw [hcr] at hdigit hnumber ⊢
    have hc := hdigit c List.mem_cons_self
    rw [List.cons_append] at hnumber ⊢
    rw [readValue_scalar fuel room _ (not_mem_of_isDigit hc (by simp)),
      readWord_eq_none _ (not_mem_of_isDigit hc (by simp))]
    exact hnumber
  | negSucc n =>
    have hdigit := all_isDigit_toDigits (n + 1)
    have hnumber := readNumber_minus (n := n + 1) hwritable h
    rw [renderInt]
    obtain ⟨c, r, hcr⟩ := List.exists_cons_of_ne_nil (Nat.toDigits_ne_nil (b := 10) (n := n + 1))
    rw [hcr] at hdigit hnumber ⊢
    rw [List.cons_append] at hnumber
    rw [List.cons_append, List.cons_append, readValue_scalar fuel room _ (by decide),
      readWord_minus _ (hdigit c List.mem_cons_self)]
    exact hnumber

/-! ## Brackets -/

theorem renderItems_eq (n : Nat) (items : List Json) :
    renderItems n items = items.map (renderAt n) := by
  induction items with
  | nil => rfl
  | cons v rest ih => rw [renderItems, List.map_cons, ih]

theorem renderFields_eq (n : Nat) (fields : List (String × Json)) :
    renderFields n fields = fields.map fun field => (field.1, renderAt n field.2) := by
  induction fields with
  | nil => rfl
  | cons field rest ih => rw [renderFields, List.map_cons, ih]

/-- The text of a field. -/
def member (n : Nat) (field : String × Json) : List Char :=
  quote field.1 ++ ':' :: ' ' :: renderAt n field.2

theorem renderAt_arr (n : Nat) (items : List Json) :
    renderAt n (arr items) = bracket n '[' ']' (items.map (renderAt (n + 1))) := by
  rw [renderAt, renderItems_eq]

theorem renderAt_obj (n : Nat) (fields : List (String × Json)) :
    renderAt n (obj fields) = bracket n '{' '}' ((sortFields fields).map (member (n + 1))) := by
  rw [renderAt, renderFields_eq, map_sortFields, List.map_map]
  rfl

/-- What follows the first element between brackets: the other elements and the closing bracket. -/
def following (n : Nat) (closing : Char) : List (List Char) → List Char
  | [] => newline n ++ [closing]
  | t :: rest => ',' :: newline (n + 1) ++ t ++ following n closing rest

theorem following_eq (n : Nat) (closing : Char) (texts : List (List Char)) :
    texts.flatMap (fun t => ',' :: newline (n + 1) ++ t) ++ newline n ++ [closing] =
      following n closing texts := by
  induction texts with
  | nil => rfl
  | cons t rest ih =>
    rw [following, ← ih]
    simp

theorem bracket_cons (n : Nat) (opening closing : Char) (first : List Char)
    (rest : List (List Char)) :
    bracket n opening closing (first :: rest) =
      opening :: newline (n + 1) ++ first ++ following n closing rest := by
  rw [bracket, ← following_eq]
  simp

theorem skip_newline (n : Nat) (t : List Char) : skip (newline n ++ t) = skip t := by
  have hblank : ∀ c ∈ newline n, isSpace c = true := by
    intro c hc
    rcases List.mem_cons.mp hc with rfl | hc
    · rfl
    · rw [(List.mem_replicate.mp hc).2]
      rfl
  rw [skip, List.dropWhile_append_of_pos hblank]
  rfl

theorem skip_cons {c : Char} (r : List Char) (hc : isSpace c = false) : skip (c :: r) = c :: r := by
  rw [skip, List.dropWhile_cons_of_neg (by simp [hc])]

theorem skip_following_nil {closing : Char} (n : Nat) (rest : List Char)
    (h : isSpace closing = false) : skip (following n closing [] ++ rest) = closing :: rest := by
  rw [following, List.append_assoc, skip_newline]
  exact skip_cons _ h

theorem skip_following_cons (n : Nat) (closing : Char) (t : List Char) (ts : List (List Char))
    (rest : List Char) :
    skip (following n closing (t :: ts) ++ rest) =
      ',' :: (newline (n + 1) ++ (t ++ (following n closing ts ++ rest))) := by
  rw [following, List.append_assoc, List.append_assoc]
  exact skip_cons _ rfl

theorem length_following_nil (n : Nat) (closing : Char) :
    (following n closing []).length = (newline n).length + 1 := by
  rw [following, List.length_append, List.length_singleton]

theorem length_following_cons (n : Nat) (closing : Char) (t : List Char) (ts : List (List Char)) :
    (following n closing (t :: ts)).length =
      (newline (n + 1)).length + t.length + (following n closing ts).length + 1 := by
  simp only [following, List.length_append, List.length_cons]
  omega

theorem ends_following (n : Nat) (closing : Char) (texts : List (List Char)) (rest : List Char) :
    Ends (following n closing texts ++ rest) := by
  cases texts with
  | nil => exact ⟨'\n', _, rfl, .inr rfl⟩
  | cons t ts => exact ⟨',', _, rfl, .inl rfl⟩

theorem renderInt_head (k : Int) :
    ∃ c r, renderInt k = c :: r ∧ (c.isDigit = true ∨ c = '-') := by
  cases k with
  | ofNat n =>
    have hdigit := all_isDigit_toDigits n
    obtain ⟨c, r, hcr⟩ := List.exists_cons_of_ne_nil (Nat.toDigits_ne_nil (b := 10) (n := n))
    rw [hcr] at hdigit
    exact ⟨c, r, hcr, .inl (hdigit c List.mem_cons_self)⟩
  | negSucc n => exact ⟨'-', _, rfl, .inr rfl⟩

theorem bracket_head (n : Nat) (opening closing : Char) (texts : List (List Char)) :
    ∃ r, bracket n opening closing texts = opening :: r := by
  cases texts with
  | nil => exact ⟨_, rfl⟩
  | cons t ts => exact ⟨_, bracket_cons n opening closing t ts⟩

/-- The text of a value begins neither with white space nor with a closing bracket. -/
theorem renderAt_head {v : Json} (h : Plain v) (n : Nat) :
    ∃ c r, renderAt n v = c :: r ∧ isSpace c = false ∧ c ≠ ']' := by
  cases h with
  | null => exact ⟨'n', _, rfl, rfl, by decide⟩
  | bool b => cases b <;> exact ⟨_, _, rfl, rfl, by decide⟩
  | int k =>
    obtain ⟨c, r, hcr, hdigit | rfl⟩ := renderInt_head k
    · refine ⟨c, r, hcr, ?_, ne_of_isDigit hdigit (by decide)⟩
      have hblank : c ∉ [' ', '\t', '\n', '\r'] := not_mem_of_isDigit hdigit (by simp)
      simpa [isSpace, and_assoc] using hblank
    · exact ⟨'-', r, hcr, rfl, by decide⟩
  | str s => exact ⟨'"', _, rfl, rfl, by decide⟩
  | arr _ =>
    obtain ⟨r, hr⟩ := bracket_head n '[' ']' (renderItems (n + 1) _)
    exact ⟨'[', r, hr, rfl, by decide⟩
  | obj _ _ =>
    obtain ⟨r, hr⟩ := bracket_head n '{' '}' _
    exact ⟨'{', r, hr, rfl, by decide⟩

/-! ## Values -/

/-- The text of a value, at any level and before any text that can follow it, is read as the value
with sorted fields, provided that there is room for it. -/
def ReadsBack (v : Json) : Prop :=
  ∀ (n fuel : Nat) (room : Option Nat) (rest : List Char), Ends rest → Fits room v →
    (renderAt n v).length ≤ fuel → readValue fuel room (renderAt n v ++ rest) = .ok (sorted v, rest)

/-- The text of a value is not empty, so at least one step is allowed. -/
theorem readsBack_of_succ {v : Json} (h : Plain v)
    (hread : ∀ (n fuel : Nat) (room : Option Nat) (rest : List Char), Ends rest → Fits room v →
      (renderAt n v).length ≤ fuel + 1 →
      readValue (fuel + 1) room (renderAt n v ++ rest) = .ok (sorted v, rest)) : ReadsBack v := by
  intro n fuel room rest hends hfits hfuel
  obtain ⟨c, r, hcr, -⟩ := renderAt_head h n
  cases fuel with
  | zero => simp [hcr] at hfuel
  | succ fuel => exact hread n fuel room rest hends hfits hfuel

theorem skip_renderAt {v : Json} (h : Plain v) (n : Nat) (rest : List Char) :
    skip (renderAt n v ++ rest) = renderAt n v ++ rest := by
  obtain ⟨c, r, hcr, hspace, -⟩ := renderAt_head h n
  rw [hcr, List.cons_append, skip_cons _ hspace]

/-- The elements of an array are read one by one. -/
theorem readItems_following {v : Json} {vs : List Json} {n fuel : Nat} {room : Option Nat}
    (rest : List Char) (hplain : ∀ w ∈ v :: vs, Plain w) (hreads : ∀ w ∈ v :: vs, ReadsBack w)
    (hfits : ∀ w ∈ v :: vs, Fits room w)
    (hfuel : (renderAt (n + 1) v).length + (following n ']' (vs.map (renderAt (n + 1)))).length ≤
      fuel) :
    readItems fuel room
        (renderAt (n + 1) v ++ (following n ']' (vs.map (renderAt (n + 1))) ++ rest)) =
      .ok ((v :: vs).map sorted, rest) := by
  induction vs generalizing v fuel with
  | nil =>
    rw [List.map_nil, length_following_nil] at hfuel
    obtain ⟨fuel, rfl⟩ : ∃ k, fuel = k + 1 := ⟨fuel - 1, by omega⟩
    have hvalue := hreads v List.mem_cons_self (n + 1) fuel room _
      (ends_following n ']' [] rest) (hfits v List.mem_cons_self) (by omega)
    simp only [readItems, List.map_nil, hvalue,
      skip_following_nil n rest (rfl : isSpace ']' = false), List.map_cons]
  | cons w vs ih =>
    rw [List.map_cons, length_following_cons] at hfuel
    obtain ⟨fuel, rfl⟩ : ∃ k, fuel = k + 1 := ⟨fuel - 1, by omega⟩
    have hvalue := hreads v List.mem_cons_self (n + 1) fuel room _
      (ends_following n ']' ((w :: vs).map (renderAt (n + 1))) rest) (hfits v List.mem_cons_self)
      (by omega)
    have hrest : readItems fuel room
        (renderAt (n + 1) w ++ (following n ']' (vs.map (renderAt (n + 1))) ++ rest)) =
        .ok ((w :: vs).map sorted, rest) :=
      ih (fun u hu => hplain u (List.mem_cons_of_mem v hu))
        (fun u hu => hreads u (List.mem_cons_of_mem v hu))
        (fun u hu => hfits u (List.mem_cons_of_mem v hu)) (by omega)
    have hw := hplain w (List.mem_cons_of_mem v List.mem_cons_self)
    rw [List.map_cons] at hvalue ⊢
    simp only [readItems, hvalue, skip_following_cons, skip_newline, skip_renderAt hw, hrest]
    rfl

theorem member_append (n : Nat) (field : String × Json) (rest : List Char) :
    member n field ++ rest =
      '"' :: (field.1.toList.flatMap escape ++
        '"' :: ':' :: ' ' :: (renderAt n field.2 ++ rest)) := by
  rw [member, List.append_assoc, quote_append]
  rfl

/-- One field is read and put behind those that were read before; a brace ends the object, and a
comma leads to the next field. -/
theorem readFields_member {field : String × Json} {held : List (String × Json)} {n fuel : Nat}
    {room : Option Nat} {rest : List Char} (hplain : Plain field.2) (hreads : ReadsBack field.2)
    (hfits : Fits room field.2) (hfresh : field.1 ∉ held.map Prod.fst) (hends : Ends rest)
    (hfuel : (member n field).length ≤ fuel) (after : List Char) :
    (skip rest = '}' :: after → readFields (fuel + 1) room held (member n field ++ rest) =
      .ok (held ++ [(field.1, sorted field.2)], after)) ∧
    (skip rest = ',' :: after → readFields (fuel + 1) room held (member n field ++ rest) =
      readFields fuel room (held ++ [(field.1, sorted field.2)]) (skip after)) := by
  have hvalue := hreads n fuel room rest hends hfits (by
    rw [member, List.length_append, List.length_cons, List.length_cons] at hfuel
    omega)
  have hblank : skip (' ' :: (renderAt n field.2 ++ rest)) = renderAt n field.2 ++ rest :=
    skip_renderAt hplain n rest
  have hcolon : ∀ t, skip (':' :: t) = ':' :: t := fun t => skip_cons t rfl
  rw [member_append]
  constructor
  · intro hbrace
    simp only [readFields, readChars_quoted, hcolon, hblank, hvalue, isText_map_some,
      textOf_map_some, if_true, setField_of_not_mem hfresh, hbrace]
  · intro hcomma
    simp only [readFields, readChars_quoted, hcolon, hblank, hvalue, isText_map_some,
      textOf_map_some, if_true, setField_of_not_mem hfresh, hcomma]

/-- The fields of an object are read one by one. -/
theorem readFields_following {field : String × Json} {fields held : List (String × Json)}
    {n fuel : Nat} {room : Option Nat} (rest : List Char)
    (hplain : ∀ g ∈ field :: fields, Plain g.2) (hreads : ∀ g ∈ field :: fields, ReadsBack g.2)
    (hfits : ∀ g ∈ field :: fields, Fits room g.2)
    (hnames : ((held ++ field :: fields).map Prod.fst).Nodup)
    (hfuel : (member (n + 1) field).length +
      (following n '}' (fields.map (member (n + 1)))).length ≤ fuel) :
    readFields fuel room held
        (member (n + 1) field ++ (following n '}' (fields.map (member (n + 1))) ++ rest)) =
      .ok (held ++ (field :: fields).map fun g => (g.1, sorted g.2), rest) := by
  induction fields generalizing field held fuel with
  | nil =>
    -- The name is a new one, so the field is put behind those that are held.
    have hfresh : field.1 ∉ held.map Prod.fst := by
      rw [List.map_append, List.nodup_append] at hnames
      exact fun hmem => hnames.2.2 _ hmem _ List.mem_cons_self rfl
    rw [List.map_nil, length_following_nil] at hfuel
    obtain ⟨fuel, rfl⟩ : ∃ k, fuel = k + 1 := ⟨fuel - 1, by omega⟩
    rw [List.map_nil]
    exact (readFields_member (hplain field List.mem_cons_self) (hreads field List.mem_cons_self)
      (hfits field List.mem_cons_self) hfresh (ends_following n '}' [] rest)
      (by omega) rest).1 (skip_following_nil n rest rfl)
  | cons other fields ih =>
    have hfresh : field.1 ∉ held.map Prod.fst := by
      rw [List.map_append, List.nodup_append] at hnames
      exact fun hmem => hnames.2.2 _ hmem _ List.mem_cons_self rfl
    have hnames' : ((held ++ [(field.1, sorted field.2)] ++ other :: fields).map
        Prod.fst).Nodup := by
      simpa using hnames
    rw [List.map_cons, length_following_cons] at hfuel
    obtain ⟨fuel, rfl⟩ : ∃ k, fuel = k + 1 := ⟨fuel - 1, by omega⟩
    have hskip : skip (member (n + 1) other ++
        (following n '}' (fields.map (member (n + 1))) ++ rest)) =
        member (n + 1) other ++ (following n '}' (fields.map (member (n + 1))) ++ rest) := by
      rw [member_append]
      exact skip_cons _ rfl
    have hrest := ih (fun g hg => hplain g (List.mem_cons_of_mem field hg))
      (fun g hg => hreads g (List.mem_cons_of_mem field hg))
      (fun g hg => hfits g (List.mem_cons_of_mem field hg)) hnames' (show _ ≤ fuel by omega)
    rw [List.map_cons, (readFields_member (hplain field List.mem_cons_self)
      (hreads field List.mem_cons_self) (hfits field List.mem_cons_self) hfresh
      (ends_following n '}' (member (n + 1) other :: fields.map (member (n + 1))) rest) (by omega)
      _).2 (skip_following_cons n '}' _ _ rest), skip_newline, hskip, hrest]
    simp

theorem readValue_arr {fuel : Nat} {room : Option Nat} {c : Char} {t r : List Char}
    (h : skip t = c :: r) (hc : c ≠ ']') (hroom : room ≠ some 0) :
    readValue (fuel + 1) room ('[' :: t) =
      (readItems fuel (room.map (· - 1)) (c :: r)).map fun (items, rest) => (arr items, rest) := by
  simp only [readValue, h, if_neg hroom]
  split
  · rename_i heq
    exact absurd (List.cons.inj heq).1 hc
  · rfl

theorem readValue_obj {fuel : Nat} {room : Option Nat} {c : Char} {t r : List Char}
    (h : skip t = c :: r) (hc : c ≠ '}') (hroom : room ≠ some 0) :
    readValue (fuel + 1) room ('{' :: t) =
      (readFields fuel (room.map (· - 1)) [] (c :: r)).map fun (fields, rest) =>
        (obj fields, rest) := by
  simp only [readValue, h, if_neg hroom]
  split
  · rename_i heq
    exact absurd (List.cons.inj heq).1 hc
  · rfl

theorem readsBack_arr {items : List Json} (hplain : ∀ v ∈ items, Plain v)
    (hreads : ∀ v ∈ items, ReadsBack v) : ReadsBack (arr items) := by
  refine readsBack_of_succ (.arr hplain) fun n fuel room rest hends hfits hfuel => ?_
  obtain ⟨hroom, hinside⟩ := hfits.arr
  rw [renderAt_arr] at hfuel ⊢
  rw [sorted_arr]
  cases items with
  | nil => simp [bracket, readValue, hroom, skip, isSpace]
  | cons v vs =>
    rw [List.map_cons, bracket_cons, List.length_append, List.length_append, List.length_cons]
      at hfuel
    have hitems : readItems fuel (room.map (· - 1))
        (renderAt (n + 1) v ++ (following n ']' (vs.map (renderAt (n + 1))) ++ rest)) =
        .ok ((v :: vs).map sorted, rest) :=
      readItems_following rest hplain hreads hinside (by omega)
    obtain ⟨c, r, hcr, hspace, hclosing⟩ := renderAt_head (hplain v List.mem_cons_self) (n + 1)
    rw [hcr, List.cons_append] at hitems
    have hskip : skip (newline (n + 1) ++ (renderAt (n + 1) v ++
        (following n ']' (vs.map (renderAt (n + 1))) ++ rest))) =
        c :: (r ++ (following n ']' (vs.map (renderAt (n + 1))) ++ rest)) := by
      rw [skip_newline, hcr]
      exact skip_cons _ hspace
    rw [List.map_cons, bracket_cons, List.append_assoc, List.append_assoc, List.cons_append,
      readValue_arr hskip hclosing hroom, hitems]
    rfl

theorem readsBack_obj {fields : List (String × Json)} (hnames : (fields.map Prod.fst).Nodup)
    (hplain : ∀ field ∈ fields, Plain field.2) (hreads : ∀ field ∈ fields, ReadsBack field.2) :
    ReadsBack (obj fields) := by
  refine readsBack_of_succ (.obj hnames hplain) fun n fuel room rest hends hfits hfuel => ?_
  obtain ⟨hroom, hinside⟩ := hfits.obj
  have hmem : ∀ field ∈ sortFields fields, field ∈ fields :=
    fun field h => (sortFields_perm fields).mem_iff.mp h
  have hnames' := nodup_sortFields hnames
  rw [renderAt_obj] at hfuel ⊢
  rw [sorted_obj]
  cases hsorted : sortFields fields with
  | nil => simp [bracket, readValue, hroom, skip, isSpace]
  | cons field others =>
    rw [hsorted] at hfuel hmem hnames'
    rw [List.map_cons, bracket_cons, List.length_append, List.length_append, List.length_cons]
      at hfuel
    have hfields : readFields fuel (room.map (· - 1)) []
        (member (n + 1) field ++ (following n '}' (others.map (member (n + 1))) ++ rest)) =
        .ok ([] ++ (field :: others).map fun g => (g.1, sorted g.2), rest) :=
      readFields_following rest (fun g hg => hplain g (hmem g hg))
        (fun g hg => hreads g (hmem g hg)) (fun g hg => hinside g (hmem g hg)) hnames' (by omega)
    rw [member_append] at hfields
    have hskip : skip (newline (n + 1) ++ (member (n + 1) field ++
        (following n '}' (others.map (member (n + 1))) ++ rest))) =
        '"' :: (field.1.toList.flatMap escape ++ '"' :: ':' :: ' ' :: (renderAt (n + 1) field.2 ++
          (following n '}' (others.map (member (n + 1))) ++ rest))) := by
      rw [skip_newline, member_append]
      exact skip_cons _ rfl
    rw [List.map_cons, bracket_cons, List.append_assoc, List.append_assoc, List.cons_append,
      readValue_obj hskip (by decide) hroom, hfields]
    rfl

/-- Every plain value is read back. -/
theorem Plain.readsBack {v : Json} (h : Plain v) : ReadsBack v := by
  induction h with
  | null => exact readsBack_of_succ .null fun _ _ _ _ _ _ _ => rfl
  | bool b => cases b <;> exact readsBack_of_succ (.bool _) fun _ _ _ _ _ _ _ => rfl
  | int k =>
    exact readsBack_of_succ (.int k) fun _ fuel _ _ hends hfits _ =>
      readValue_renderInt hfits fuel hends
  | str s =>
    refine readsBack_of_succ (.str s) fun n fuel room rest _ _ _ => ?_
    rw [renderAt, quote_append]
    simp only [readValue, readChars_quoted, ofChars, isText_map_some, if_true, textOf_map_some,
      sorted_str]
  | arr hplain hreads => exact readsBack_arr hplain hreads
  | obj hnames hplain hreads => exact readsBack_obj hnames hplain hreads

theorem read_canonical {room : Option Nat} {v : Json} (h : Plain v) (hfits : Fits room v) :
    read room (canonical v).toList = .ok (sorted v) := by
  have hends : Ends ['\n'] := ⟨'\n', [], rfl, .inr rfl⟩
  have hread := h.readsBack 0 ((renderAt 0 v ++ ['\n']).length + 1) room ['\n'] hends hfits (by
    rw [List.length_append]
    omega)
  rw [canonical, String.toList_ofList, read, skip_renderAt h, hread]
  rfl

/-- The canonical text of a plain value denotes the value with sorted fields. -/
theorem parse?_canonical {v : Json} (h : Plain v) :
    parse? (canonical v).toList = some (sorted v) := by
  rw [parse?, read_canonical h (fits_none v)]
  rfl

theorem parseFile_canonical {v : Json} (h : Plain v) (hheight : height v ≤ maxNesting)
    (hwritable : v.isWritable = true) : parseFile (canonical v).toList = .ok (sorted v) :=
  read_canonical h (fits_some hheight hwritable)

end NullAccess.Json
