/-!
# Lossy text — bytes shown as text

`Text.lossy` reads UTF-8 and shows each longest run of bytes that starts a character but does not finish it as
one replacement character.
-/

namespace WireTypes
namespace Text

def replacement : Char := '\ufffd'

def inRange (low high : Nat) (b : UInt8) : Bool := low ≤ b.toNat && b.toNat ≤ high

def isContinuation (b : UInt8) : Bool := inRange 0x80 0xBF b

/-- The number of bytes after a first byte, and whether the second byte fits it. -/
def expected (first : UInt8) : Nat × (UInt8 → Bool) :=
  let n := first.toNat
  if 0xC2 ≤ n && n ≤ 0xDF then (1, isContinuation)
  else if n == 0xE0 then (2, inRange 0xA0 0xBF)
  else if n == 0xED then (2, inRange 0x80 0x9F)
  else if 0xE1 ≤ n && n ≤ 0xEF then (2, isContinuation)
  else if n == 0xF0 then (3, inRange 0x90 0xBF)
  else if n == 0xF4 then (3, inRange 0x80 0x8F)
  else if 0xF1 ≤ n && n ≤ 0xF3 then (3, isContinuation)
  else (0, fun _ => false)

/-- The bytes after a first byte that belong to its character, as far as they are there. -/
def following (first : UInt8) (rest : List UInt8) : List UInt8 :=
  let (count, fits) := expected first
  match count, rest with
  | 0, _ => []
  | _, [] => []
  | n + 1, second :: more =>
      if fits second then second :: (more.take n).takeWhile isContinuation else []

/-- The character of a first byte and as many bytes as it expects. -/
def characterOf (first : UInt8) (more : List UInt8) : Char :=
  if first.toNat < 0x80 then Char.ofNat first.toNat
  else
    let count := (expected first).1
    if count = 0 || more.length < count then replacement
    else
      let mask := Nat.pow 2 (6 - count)
      Char.ofNat (more.foldl (fun n b => n * 64 + b.toNat % 64) (first.toNat % mask))

def lossyChars : Nat → List UInt8 → List Char
  | 0, _ => []
  | _ + 1, [] => []
  | fuel + 1, first :: rest =>
      let more := following first rest
      characterOf first more :: lossyChars fuel (rest.drop more.length)

def lossy (bytes : ByteArray) : String :=
  String.ofList (lossyChars (bytes.size + 1) bytes.toList)

end Text
end WireTypes
