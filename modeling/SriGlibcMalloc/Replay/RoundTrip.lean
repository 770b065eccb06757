import SriGlibcMalloc.Replay.LogLine

/-!
# What the reader gets back from a recorded line

Every line that the hooks write is accepted by the reader, and each of its fields
comes back as the least of the recorded value and `LLONG_MAX`, because `strtoll`
is a signed conversion.
-/

namespace SriGlibcMalloc.Replay

set_option autoImplicit false

def Call.handler : Call → Handler
  | .malloc .. => .replayMalloc
  | .free .. => .replayFree
  | .calloc .. => .replayCalloc
  | .realloc .. => .replayRealloc

def Call.fields : Call → List Word
  | .malloc size result caller => [size, result, caller]
  | .free p caller => [p, caller]
  | .calloc nemb size result caller => [nemb, size, result, caller]
  | .realloc p size result caller => [p, size, result, caller]

/-- The reader accepts the line and its handler gets the recorded values. -/
def ReadsBack (call : Call) : Prop :=
  ∀ later, ∃ buffer, readline (call.write ++ later) = some (buffer, later) ∧
    replayHandler buffer = some (some call.handler) ∧
    dirtywork call.handler.args buffer = some call.fields

def hexDigits : Nat → Nat → List Char
  | 0, _ => []
  | length + 1, value => hexDigits length (value / 16) ++ [hexChar (value % 16)]

def hexField (value : Word) : List Char := '0' :: 'x' :: hexDigits 16 value.toNat

variable {front back digits : List Char} {length value start : Nat} {val : Word}

theorem length_hex_digits (length value : Nat) : (hexDigits length value).length = length := by
  induction length generalizing value with
  | zero => rfl
  | succ length ih => rw [hexDigits, List.length_append, ih, List.length_singleton]

theorem hex_digits_zero (length : Nat) : hexDigits length 0 = List.replicate length '0' := by
  induction length with
  | zero => rfl
  | succ length ih =>
      rw [hexDigits, Nat.zero_div, ih, List.replicate_succ']
      rfl

theorem hex_char_cases {digit : Nat} (small : digit < 16) :
    digitValue (hexChar digit) = some digit ∧ isalnum (hexChar digit) = true ∧
      hexChar digit ≠ '\n' := by
  have every : ∀ digit < 16, digitValue (hexChar digit) = some digit ∧
      isalnum (hexChar digit) = true ∧ hexChar digit ≠ '\n' := by decide
  exact every digit small

theorem store_digits_eq (front back : List Char) (length : Nat) (val : Word) :
    storeDigits (front ++ (List.replicate length '0' ++ back)) front.length length val =
      front ++ (hexDigits length val.toNat ++ back) := by
  induction length generalizing val back with
  | zero => rfl
  | succ length ih =>
      rw [storeDigits]
      by_cases zero : val = 0
      · rw [if_pos zero, zero]
        show _ = front ++ (hexDigits (length + 1) 0 ++ back)
        rw [hex_digits_zero]
      · have low : (val &&& 0xF).toNat = val.toNat % 16 := by
          rw [BitVec.toNat_and]
          exact Nat.and_two_pow_sub_one_eq_mod val.toNat 4
        have high : (val >>> 4).toNat = val.toNat / 16 := by
          rw [BitVec.toNat_ushiftRight, Nat.shiftRight_eq_div_pow]
        have placed : (front ++ (List.replicate (length + 1) '0' ++ back)).set
            (front.length + length) (hexChar (val &&& 0xF).toNat) =
            front ++ (List.replicate length '0' ++ (hexChar (val.toNat % 16) :: back)) := by
          rw [low, List.set_append_right _ _ (Nat.le_add_right ..), Nat.add_sub_cancel_left,
            List.replicate_succ', List.append_assoc, List.set_append_right _ _ (by simp)]
          simp
        rw [if_neg zero, placed, ih, high, hexDigits, List.append_assoc]
        rfl

theorem digits_value_hex (fits : value < 16 ^ length) :
    digitsValue (hexDigits length value) = value := by
  induction length generalizing value with
  | zero =>
      rw [Nat.pow_zero, Nat.lt_one_iff] at fits
      rw [fits]
      rfl
  | succ length ih =>
      have shorter : value / 16 < 16 ^ length := by
        apply Nat.div_lt_of_lt_mul
        rw [Nat.mul_comm, ← Nat.pow_succ]
        exact fits
      have last := (hex_char_cases (Nat.mod_lt value (by decide : 0 < 16))).1
      have split : digitsValue (hexDigits (length + 1) value) =
          16 * digitsValue (hexDigits length (value / 16)) +
            (digitValue (hexChar (value % 16))).getD 0 := by
        rw [hexDigits, digitsValue, List.foldl_append]
        rfl
      rw [split, ih shorter, last]
      exact Nat.div_add_mod value 16

theorem hex_digits_are {c : Char} (member : c ∈ hexDigits length value) :
    isHexDigit c = true ∧ isalnum c = true ∧ c ≠ '\n' := by
  induction length generalizing value with
  | zero => cases member
  | succ length ih =>
      rw [hexDigits, List.mem_append, List.mem_singleton] at member
      rcases member with earlier | last
      · exact ih earlier
      · obtain ⟨digit, letter, other⟩ := hex_char_cases (Nat.mod_lt value (by decide : 0 < 16))
        rw [last, isHexDigit, digit]
        exact ⟨rfl, letter, other⟩

/-- What `strtoll` makes of a recorded value. -/
def saturate (value : Word) : Word := if value.toNat < 2 ^ 63 then value else BitVec.ofInt 64 longMax

theorem of_int_saturated (value : Word) :
    BitVec.ofInt 64 (min (value.toNat : Int) longMax) = saturate value := by
  rw [saturate]
  by_cases small : value.toNat < 2 ^ 63
  · have least : min (value.toNat : Int) longMax = value.toNat := by
      rw [longMax]
      omega
    rw [if_pos small, least, BitVec.ofInt_natCast, BitVec.ofNat_toNat, BitVec.setWidth_eq]
  · have least : min (value.toNat : Int) longMax = longMax := by
      rw [longMax]
      omega
    rw [if_neg small, least]

theorem strtoll_field (value : Word) (next : Char) (rest : List Char)
    (stops : isHexDigit next = false) :
    strtoll (hexField value ++ next :: rest) =
      some (min (value.toNat : Int) longMax, next :: rest) := by
  have every : ∀ c ∈ hexDigits 16 value.toNat, isHexDigit c = true := by
    intro c member
    exact (hex_digits_are member).1
  have total : digitsValue (hexDigits 16 value.toNat) = value.toNat := digits_value_hex value.isLt
  have some : hexDigits 16 value.toNat ≠ [] := by
    intro none
    have long := length_hex_digits 16 value.toNat
    rw [none] at long
    exact absurd long (by decide)
  obtain ⟨c, digits, shape⟩ := List.exists_cons_of_ne_nil some
  have first : isHexDigit c = true := every c (by rw [shape]; exact List.mem_cons_self)
  have skipped : skipPrefix ('0' :: 'x' :: (hexDigits 16 value.toNat ++ next :: rest)) =
      hexDigits 16 value.toNat ++ next :: rest := by
    rw [shape]
    simp [skipPrefix, first]
  have taken : (hexDigits 16 value.toNat ++ next :: rest).takeWhile isHexDigit =
      hexDigits 16 value.toNat := by
    rw [List.takeWhile_append_of_pos every, List.takeWhile_cons_of_neg (by simp [stops]),
      List.append_nil]
  have dropped : (hexDigits 16 value.toNat ++ next :: rest).dropWhile isHexDigit =
      next :: rest := by
    rw [List.dropWhile_append_of_pos every, List.dropWhile_cons_of_neg (by simp [stops])]
  have unsigned : skipSign ((hexField value ++ next :: rest).dropWhile isspace) =
      (false, '0' :: 'x' :: (hexDigits 16 value.toNat ++ next :: rest)) := rfl
  simp only [strtoll, unsigned, skipped, taken, if_neg some, total, dropped, Bool.false_eq_true,
    if_false]

theorem length_hex_field (value : Word) : (hexField value).length = 18 := by
  rw [hexField, List.length_cons, List.length_cons, length_hex_digits]

/-- The last column is never used. -/
def blankEnd : List Char := ' ' :: (blankField ++ ['\n'])

/-- A line whose columns are filled as given. -/
def columns (func : Char) (first second third fourth : List Char) : List Char :=
  func :: ' ' :: (first ++ ' ' :: (second ++ ' ' :: (third ++ ' ' :: (fourth ++ blankEnd))))

/-- The text of the fields of a line, between blanks. -/
def fieldsText (value : Word) : List Word → List Char
  | [] => hexField value
  | next :: later => hexField value ++ ' ' :: fieldsText next later

theorem store_column (start : Nat) (front back : List Char) (val : Word) (placed : front.length + 2 = start) :
    storehexstring (front ++ (blankField ++ back)) start val = front ++ (hexField val ++ back) := by
  have digits := store_digits_eq (front ++ ['0', 'x']) back 16 val
  have behind : (front ++ ['0', 'x']).length = start := by
    rw [← placed, List.length_append]
    rfl
  rw [behind] at digits
  simpa [storehexstring, blankField, hexField] using digits

variable {func : Char} {first second third fourth : List Char}

theorem store_first (func : Char) (second third fourth : List Char) (val : Word) :
    storehexstring (columns func blankField second third fourth) 4 val =
      columns func (hexField val) second third fourth :=
  store_column 4 [func, ' '] _ val rfl

theorem store_second (wide : first.length = 18) (val : Word) :
    storehexstring (columns func first blankField third fourth) 23 val =
      columns func first (hexField val) third fourth := by
  have stored := store_column 23 (func :: ' ' :: (first ++ [' ']))
    (' ' :: (third ++ ' ' :: (fourth ++ blankEnd))) val (by simp [wide])
  simpa [columns] using stored

theorem store_third (wide : first.length = 18) (wide' : second.length = 18) (val : Word) :
    storehexstring (columns func first second blankField fourth) 42 val =
      columns func first second (hexField val) fourth := by
  have stored := store_column 42 (func :: ' ' :: (first ++ ' ' :: (second ++ [' '])))
    (' ' :: (fourth ++ blankEnd)) val (by simp [wide, wide'])
  simpa [columns] using stored

theorem store_fourth (wide : first.length = 18) (wide' : second.length = 18)
    (wide'' : third.length = 18) (val : Word) :
    storehexstring (columns func first second third blankField) 61 val =
      columns func first second third (hexField val) := by
  have stored := store_column 61
    (func :: ' ' :: (first ++ ' ' :: (second ++ ' ' :: (third ++ [' '])))) blankEnd val
    (by simp [wide, wide', wide''])
  simpa [columns] using stored

/-- The line ends where the operation's length says. -/
theorem cut_line (start : Nat) (front back : List Char) (next : Char) (placed : front.length = start) :
    ((front ++ next :: back).set start '\n').take (start + 1) = front ++ ['\n'] := by
  rw [← placed, List.set_append_right _ _ (Nat.le_refl _), Nat.sub_self, List.set_cons_zero,
    List.take_length_add_append]
  rfl

def Call.letter : Call → Char
  | .malloc .. => 'm'
  | .free .. => 'f'
  | .calloc .. => 'c'
  | .realloc .. => 'r'

theorem blank_columns (func : Char) :
    blankLine.set 0 func = columns func blankField blankField blankField blankField :=
  rfl

theorem write_eq (call : Call) : ∃ value values, call.fields = value :: values ∧
    call.write = (call.letter :: ' ' :: fieldsText value values) ++ ['\n'] := by
  cases call with
  | malloc size result caller =>
      apply Exists.intro size
      apply Exists.intro [result, caller]
      apply And.intro rfl
      have cut := cut_line mallocLen
        ('m' :: ' ' :: fieldsText size [result, caller]) (blankField ++ blankEnd) ' '
        (by simp [fieldsText, length_hex_field, mallocLen])
      rw [Call.letter, ← cut]
      simp only [Call.write, writelogentry]
      rw [blank_columns, store_first, store_second (length_hex_field size),
        store_third (length_hex_field size) (length_hex_field result)]
      simp only [columns, fieldsText, blankEnd, List.cons_append, List.append_assoc]
  | free p caller =>
      apply Exists.intro p
      apply Exists.intro [caller]
      apply And.intro rfl
      have cut := cut_line freeLen
        ('f' :: ' ' :: fieldsText p [caller]) (blankField ++ ' ' :: (blankField ++ blankEnd)) ' '
        (by simp [fieldsText, length_hex_field, freeLen])
      rw [Call.letter, ← cut]
      simp only [Call.write, writelogentry]
      rw [blank_columns, store_first, store_second (length_hex_field p)]
      simp only [columns, fieldsText, blankEnd, List.cons_append, List.append_assoc]
  | calloc nemb size result caller =>
      apply Exists.intro nemb
      apply Exists.intro [size, result, caller]
      apply And.intro rfl
      have cut := cut_line callocLen
        ('c' :: ' ' :: fieldsText nemb [size, result, caller]) (blankField ++ ['\n']) ' '
        (by simp [fieldsText, length_hex_field, callocLen])
      rw [Call.letter, ← cut]
      simp only [Call.write, writelogentry]
      rw [blank_columns, store_first, store_second (length_hex_field nemb),
        store_third (length_hex_field nemb) (length_hex_field size),
        store_fourth (length_hex_field nemb) (length_hex_field size) (length_hex_field result)]
      simp only [columns, fieldsText, blankEnd, List.cons_append, List.append_assoc]
  | realloc p size result caller =>
      apply Exists.intro p
      apply Exists.intro [size, result, caller]
      apply And.intro rfl
      have cut := cut_line reallocLen
        ('r' :: ' ' :: fieldsText p [size, result, caller]) (blankField ++ ['\n']) ' '
        (by simp [fieldsText, length_hex_field, reallocLen])
      rw [Call.letter, ← cut]
      simp only [Call.write, writelogentry]
      rw [blank_columns, store_first, store_second (length_hex_field p),
        store_third (length_hex_field p) (length_hex_field size),
        store_fourth (length_hex_field p) (length_hex_field size) (length_hex_field result)]
      simp only [columns, fieldsText, blankEnd, List.cons_append, List.append_assoc]

/-- A character that `readline` takes into its buffer. -/
def Readable (c : Char) : Prop := c ≠ '\n' ∧ (isalnum c || c = ' ') = true

variable {text : List Char}

theorem readable_letter (call : Call) : Readable call.letter := by
  cases call with
  | malloc => exact ⟨by simp [Call.letter], rfl⟩
  | free => exact ⟨by simp [Call.letter], rfl⟩
  | calloc => exact ⟨by simp [Call.letter], rfl⟩
  | realloc => exact ⟨by simp [Call.letter], rfl⟩

theorem readable_hex_field {value : Word} {c : Char} (member : c ∈ hexField value) :
    Readable c := by
  rw [hexField, List.mem_cons, List.mem_cons] at member
  rcases member with zero | x | digit
  · rw [zero]
    exact ⟨by decide, by decide⟩
  · rw [x]
    exact ⟨by decide, by decide⟩
  · obtain ⟨_, letter, other⟩ := hex_digits_are digit
    exact ⟨other, by rw [letter, Bool.true_or]⟩

theorem readable_fields_text (value : Word) (values : List Word) :
    ∀ c ∈ fieldsText value values, Readable c := by
  induction values generalizing value with
  | nil =>
      intro c member
      exact readable_hex_field member
  | cons next values ih =>
      intro c member
      rw [fieldsText, List.mem_append, List.mem_cons] at member
      rcases member with field | blank | later
      · exact readable_hex_field field
      · rw [blank]
        exact ⟨by decide, by decide⟩
      · exact ih next c later

theorem length_fields_text (value : Word) (values : List Word) :
    (fieldsText value values).length = 18 + 19 * values.length := by
  induction values generalizing value with
  | nil => exact length_hex_field value
  | cons next values ih =>
      rw [fieldsText, List.length_append, List.length_cons, ih, length_hex_field,
        List.length_cons]
      omega

theorem read_chars_line (room : Nat) (later : List Char) (readable : ∀ c ∈ text, Readable c)
    (short : text.length < room) :
    readChars room (text ++ '\n' :: later) = some (text, later) := by
  induction text generalizing room with
  | nil =>
      cases room with
      | zero => exact absurd short (Nat.not_lt_zero _)
      | succ room => rfl
  | cons c text ih =>
      cases room with
      | zero => exact absurd short (Nat.not_lt_zero _)
      | succ room =>
          obtain ⟨inside, taken⟩ := readable c List.mem_cons_self
          have rest := ih room (fun d member => readable d (List.mem_cons_of_mem _ member))
            (Nat.lt_of_succ_lt_succ short)
          rw [List.cons_append, readChars, if_neg inside, if_pos taken, rest]
          rfl

theorem dirty_loop_fields (value : Word) (values : List Word) (next : Char) (rest : List Char)
    (stops : isHexDigit next = false) :
    dirtyLoop (values.length + 1) (fieldsText value values ++ next :: rest) =
      some ((value :: values).map saturate) := by
  induction values generalizing value with
  | nil =>
      rw [fieldsText, List.length_nil, dirtyLoop, strtoll_field value next rest stops]
      simp only [dirtyLoop, Option.map_some, of_int_saturated, List.map_cons, List.map_nil]
  | cons second values ih =>
      rw [fieldsText, List.append_assoc, List.cons_append, List.length_cons, dirtyLoop,
        strtoll_field value ' ' _ (by decide)]
      simp only [List.drop_succ_cons, List.drop_zero, ih, Option.map_some, of_int_saturated,
        List.map_cons]

theorem args_bounds (handler : Handler) : 1 ≤ handler.args ∧ handler.args < bufferSz := by
  cases handler <;> decide

theorem fields_count (call : Call) : call.handler.args = call.fields.length := by
  cases call <;> rfl

/-- Every recorded line is accepted, and its fields come back saturated. -/
theorem read_back (call : Call) (later : List Char) :
    ∃ buffer, readline (call.write ++ later) = some (buffer, later) ∧
      replayHandler buffer = some (some call.handler) ∧
      dirtywork call.handler.args buffer = some (call.fields.map saturate) := by
  obtain ⟨value, values, fields, written⟩ := write_eq call
  have few : values.length ≤ 3 := by
    have count := congrArg List.length fields
    rw [← fields_count] at count
    cases call <;> simp only [Call.handler, Handler.args, List.length_cons] at count <;> omega
  have long : (call.letter :: ' ' :: fieldsText value values).length =
      20 + 19 * values.length := by
    rw [List.length_cons, List.length_cons, length_fields_text]
    omega
  have readable : ∀ c ∈ call.letter :: ' ' :: fieldsText value values, Readable c := by
    intro c member
    rw [List.mem_cons, List.mem_cons] at member
    rcases member with letter | blank | field
    · rw [letter]
      exact readable_letter call
    · rw [blank]
      exact ⟨by decide, by decide⟩
    · exact readable_fields_text value values c field
  have padding : ∃ room, bufferSz + 1 -
      (call.letter :: ' ' :: fieldsText value values).length = room + 1 := by
    rw [long, bufferSz]
    exact ⟨1004 - 19 * values.length, by omega⟩
  obtain ⟨room, padded⟩ := padding
  let buffer := call.letter :: ' ' :: (fieldsText value values ++ '\x00' ::
    List.replicate room '\x00')
  have line : readline (call.write ++ later) = some (buffer, later) := by
    rw [readline, written, List.append_assoc, List.singleton_append,
      read_chars_line bufferSz later readable (by rw [long, bufferSz]; omega)]
    simp only [Option.map_some, padded, List.replicate_succ, List.cons_append, buffer]
  have chosen : replayHandler buffer = some (some call.handler) := by
    cases call <;> rfl
  have parsed : dirtywork call.handler.args buffer = some (call.fields.map saturate) := by
    have loop := dirty_loop_fields value values '\x00' (List.replicate room '\x00') (by decide)
    have guard : ¬(buffer[1]? ≠ some ' ' ∨ bufferSz ≤ call.handler.args ∨
        call.handler.args < 1) := by
      have bounds := args_bounds call.handler
      have blank : buffer[1]? = some ' ' := rfl
      intro refused
      rcases refused with other | long | short
      · exact other blank
      · omega
      · omega
    rw [dirtywork, if_neg guard, fields_count, fields, List.length_cons]
    exact loop
  exact ⟨buffer, line, chosen, parsed⟩

theorem saturate_eq_iff (value : Word) : saturate value = value ↔ value.toNat < 2 ^ 63 := by
  have bound : (BitVec.ofInt 64 longMax).toNat < 2 ^ 63 := by decide
  rw [saturate]
  constructor
  · intro same
    by_cases small : value.toNat < 2 ^ 63
    · exact small
    · rw [if_neg small] at same
      rw [← same]
      exact bound
  · intro small
    exact if_pos small

theorem map_saturate_eq_iff (values : List Word) :
    values.map saturate = values ↔ ∀ value ∈ values, value.toNat < 2 ^ 63 := by
  induction values with
  | nil => simp
  | cons value values ih =>
      rw [List.map_cons, List.cons.injEq, ih, saturate_eq_iff, List.forall_mem_cons]

theorem reads_back_iff (call : Call) :
    ReadsBack call ↔ call.fields.map saturate = call.fields := by
  constructor
  · intro reads
    obtain ⟨buffer, line, _, parsed⟩ := reads []
    obtain ⟨actual, line', _, parsed'⟩ := read_back call []
    rw [line] at line'
    cases line'
    rw [parsed] at parsed'
    exact (Option.some.inj parsed').symm
  · intro same later
    obtain ⟨buffer, line, chosen, parsed⟩ := read_back call later
    rw [same] at parsed
    exact ⟨buffer, line, chosen, parsed⟩

/-- A recorded call reads back exactly when all of its values are below `2 ^ 63`. -/
theorem log_line_round_trip (call : Call) :
    ReadsBack call ↔ ∀ field ∈ call.fields, field.toNat < 2 ^ 63 := by
  rw [reads_back_iff, map_saturate_eq_iff]

/-- A program that asks for `SIZE_MAX` bytes and gets none. -/
theorem size_max_reads_back_wrong : ¬ReadsBack (.malloc (BitVec.allOnes 64) 0 0x400000) := by
  rw [reads_back_iff]
  intro same
  have first : saturate (BitVec.allOnes 64) = BitVec.allOnes 64 := (List.cons.inj same).1
  rw [saturate_eq_iff] at first
  exact absurd first (by decide)

end SriGlibcMalloc.Replay
