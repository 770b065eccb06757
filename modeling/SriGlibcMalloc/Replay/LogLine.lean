import Mathlib.Data.List.Basic
import Mathlib.Data.Nat.Bitwise

/-!
# The lines of an allocation log

This is a transcription of the writer in `mhook.c` and of the reader in
`replaylib.c`. The writer fills hexadecimal digits into the columns of a fixed
line; the reader takes a line from the log and parses its fields with `strtoll`.
The reader is built without assertions.
-/

namespace SriGlibcMalloc.Replay

set_option autoImplicit false

abbrev Word := BitVec 64

def mallocLen : Nat := 58
def freeLen : Nat := 39
def callocLen : Nat := 77
def reallocLen : Nat := 77
def initLen : Nat := 5
def finiLen : Nat := 5

def hex : List Char :=
  ['0', '1', '2', '3', '4', '5', '6', '7', '8', '9', 'A', 'B', 'C', 'D', 'E', 'F']

def hexChar (digit : Nat) : Char := hex.getD digit '0'

/-- The loop of `storehexstring`, which goes on while `pos` is not negative. -/
def storeDigits (buf : List Char) (start : Nat) : Nat → Word → List Char
  | 0, _ => buf
  | pos + 1, val =>
      if val = 0 then buf
      else storeDigits (buf.set (start + pos) (hexChar (val &&& 0xF).toNat)) start pos (val >>> 4)

def storehexstring (buf : List Char) (start : Nat) (val : Word) : List Char :=
  storeDigits buf start 16 val

def blankField : List Char := '0' :: 'x' :: List.replicate 16 '0'

/-- The initial value of `buffer`. -/
def blankLine : List Char :=
  ' ' :: ' ' :: (blankField ++ ' ' :: (blankField ++ ' ' :: (blankField ++ ' ' :: (blankField ++
    ' ' :: (blankField ++ ['\n'])))))

/-- `_writelogentry`: what is written to the log. -/
def writelogentry (func : Char) (size1 size2 p q caller : Word) : List Char :=
  let buffer := blankLine.set 0 func
  let (buffer, sz) :=
    match func with
    | 'm' =>
        (storehexstring (storehexstring (storehexstring buffer 4 size1) 23 p) 42 caller, mallocLen)
    | 'f' => (storehexstring (storehexstring buffer 4 p) 23 caller, freeLen)
    | 'c' =>
        (storehexstring (storehexstring (storehexstring (storehexstring buffer 4 size1) 23 size2)
          42 p) 61 caller, callocLen)
    | 'r' =>
        (storehexstring (storehexstring (storehexstring (storehexstring buffer 4 p) 23 size1)
          42 q) 61 caller, reallocLen)
    | 'e' => (buffer, finiLen)
    | 'i' => (buffer, initLen)
    | _ => (buffer, 5)
  (buffer.set sz '\n').take (sz + 1)

/-- A call that the hooks record, with what it returned and who called it. -/
inductive Call
  | malloc (size result caller : Word)
  | free (p caller : Word)
  | calloc (nemb size result caller : Word)
  | realloc (p size result caller : Word)
  deriving DecidableEq

/-- The line that the hook of a call writes. -/
def Call.write : Call → List Char
  | .malloc size result caller => writelogentry 'm' size 0 result 0 caller
  | .free p caller => writelogentry 'f' 0 0 p 0 caller
  | .calloc nemb size result caller => writelogentry 'c' nemb size result 0 caller
  | .realloc p size result caller => writelogentry 'r' size 0 p result caller

def bufferSz : Nat := 1024

def isalnum (c : Char) : Bool := c.isAlphanum

/-- The loop of `readline` with what is left of the buffer; there is no result
when it returns false. -/
def readChars : Nat → List Char → Option (List Char × List Char)
  | 0, _ => none
  | _ + 1, [] => none
  | room + 1, c :: stream =>
      if c = '\n' then some ([], stream)
      else if isalnum c || c = ' ' then
        (readChars room stream).map fun (line, later) => (c :: line, later)
      else none

/-- The line in its buffer, which was cleared, and the rest of the log. -/
def readline (stream : List Char) : Option (List Char × List Char) :=
  (readChars bufferSz stream).map fun (line, later) =>
    (line ++ List.replicate (bufferSz + 1 - line.length) '\x00', later)

def isspace (c : Char) : Bool :=
  c = ' ' || c = '\t' || c = '\n' || c = '\x0b' || c = '\x0c' || c = '\r'

def digitValue (c : Char) : Option Nat :=
  if '0' ≤ c ∧ c ≤ '9' then some (c.toNat - '0'.toNat)
  else if 'a' ≤ c ∧ c ≤ 'f' then some (c.toNat - 'a'.toNat + 10)
  else if 'A' ≤ c ∧ c ≤ 'F' then some (c.toNat - 'A'.toNat + 10)
  else none

def isHexDigit (c : Char) : Bool := (digitValue c).isSome

/-- The number that a row of digits stands for. -/
def digitsValue (digits : List Char) : Nat :=
  digits.foldl (fun value c => 16 * value + (digitValue c).getD 0) 0

/-- An optional `0x` in front of a digit. -/
def skipPrefix : List Char → List Char
  | '0' :: x :: c :: later =>
      if (x = 'x' || x = 'X') && isHexDigit c then c :: later else '0' :: x :: c :: later
  | text => text

def longMax : Int := 2 ^ 63 - 1

def longMin : Int := -2 ^ 63

/-- An optional sign, and whether it is negative. -/
def skipSign : List Char → Bool × List Char
  | '-' :: later => (true, later)
  | '+' :: later => (false, later)
  | text => (false, text)

/-- `strtoll (text, &rest, 16)`; there is no result when nothing was converted. -/
def strtoll (text : List Char) : Option (Int × List Char) :=
  let signed := skipSign (text.dropWhile isspace)
  let body := skipPrefix signed.2
  let digits := body.takeWhile isHexDigit
  if digits = [] then none
  else
    let magnitude : Int := digitsValue digits
    some (if signed.1 then max (-magnitude) longMin else min magnitude longMax,
      body.dropWhile isHexDigit)

/-- The loop of `dirtywork` from where `data` points to. -/
def dirtyLoop : Nat → List Char → Option (List Word)
  | 0, _ => some []
  | len + 1, data =>
      match strtoll data with
      | none => none
      | some (address, rest) =>
          (dirtyLoop len (rest.drop 1)).map fun addresses => BitVec.ofInt 64 address :: addresses

def dirtywork (len : Nat) (buffer : List Char) : Option (List Word) :=
  if buffer[1]? ≠ some ' ' ∨ bufferSz ≤ len ∨ len < 1 then none
  else dirtyLoop len (buffer.drop 2)

inductive Handler
  | replayMalloc
  | replayFree
  | replayCalloc
  | replayRealloc
  deriving DecidableEq, Repr

/-- `MALLOCARGS`, `FREEARGS`, `CALLOCARGS` and `REALLOCARGS`. -/
def Handler.args : Handler → Nat
  | .replayMalloc => 3
  | .replayFree => 2
  | .replayCalloc => 4
  | .replayRealloc => 4

/-- What `replayline` does with a line: a handler, nothing for the marks, or
failure. -/
def replayHandler (buffer : List Char) : Option (Option Handler) :=
  if buffer[1]? ≠ some ' ' then none
  else
    match buffer[0]? with
    | some 'm' => some (some .replayMalloc)
    | some 'f' => some (some .replayFree)
    | some 'c' => some (some .replayCalloc)
    | some 'r' => some (some .replayRealloc)
    | some 'i' => some none
    | some 'e' => some none
    | _ => none

end SriGlibcMalloc.Replay
