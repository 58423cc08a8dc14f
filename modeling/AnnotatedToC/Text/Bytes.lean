/-!
# Text from bytes

Bytes as UTF-8, with a replacement character for each longest part that begins a character and does
not finish it, and for each byte that begins none.
-/
namespace AnnotatedToC.Text

def replacement : Char := '�'

def isContinuation (b : UInt8) : Bool := 0x80 ≤ b && b ≤ 0xBF

/-- Whether the second byte can follow the first: it excludes overlong forms, surrogates and what is
beyond the last plane. -/
def isSecond (first second : UInt8) : Bool :=
  if first == 0xE0 then 0xA0 ≤ second && second ≤ 0xBF
  else if first == 0xED then 0x80 ≤ second && second ≤ 0x9F
  else if first == 0xF0 then 0x90 ≤ second && second ≤ 0xBF
  else if first == 0xF4 then 0x80 ≤ second && second ≤ 0x8F
  else 0xC2 ≤ first && first ≤ 0xF4 && isContinuation second

/-- The character of the bits that its bytes carry. -/
def ofBits (lead : Nat) (following : List UInt8) : Char :=
  Char.ofNat (following.foldl (fun n b => n * 64 + b.toNat % 64) lead)

def decode : List UInt8 → List Char
  | [] => []
  | a :: rest =>
    if a < 0x80 then Char.ofNat a.toNat :: decode rest
    else match rest with
      | [] => [replacement]
      | b :: rest' =>
        if !isSecond a b then replacement :: decode (b :: rest')
        else if a < 0xE0 then ofBits (a.toNat % 32) [b] :: decode rest'
        else match rest' with
          | [] => [replacement]
          | c :: rest'' =>
            if !isContinuation c then replacement :: decode (c :: rest'')
            else if a < 0xF0 then ofBits (a.toNat % 16) [b, c] :: decode rest''
            else match rest'' with
              | [] => [replacement]
              | d :: rest''' =>
                if !isContinuation d then replacement :: decode (d :: rest''')
                else ofBits (a.toNat % 8) [b, c, d] :: decode rest'''

end AnnotatedToC.Text
