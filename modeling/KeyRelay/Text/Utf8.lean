/-!
UTF-8 (RFC 3629): the longest prefix of a byte string made of whole well-formed characters,
and the text it spells. Overlong forms, surrogates and code points above U+10FFFF are not
well formed.
-/
namespace KeyRelay.Utf8

/-- A continuation byte. -/
def tail (b : Nat) : Bool := 0x80 ≤ b ∧ b ≤ 0xbf

/-- The code point and length of the character at the front, if a whole well-formed one
stands there. -/
def front? : List UInt8 → Option (Nat × Nat)
  | [] => none
  | a :: rest =>
    let a := a.toNat
    if a < 0x80 then some (a, 1)
    else match rest with
    | b :: rest2 =>
      let b := b.toNat
      if 0xc2 ≤ a ∧ a ≤ 0xdf then
        if tail b then some ((a - 0xc0) * 64 + (b - 0x80), 2) else none
      else match rest2 with
      | c :: rest3 =>
        let c := c.toNat
        let three := (a - 0xe0) * 4096 + (b - 0x80) * 64 + (c - 0x80)
        if a = 0xe0 then
          if 0xa0 ≤ b ∧ b ≤ 0xbf ∧ tail c then some (three, 3) else none
        else if (0xe1 ≤ a ∧ a ≤ 0xec) ∨ a = 0xee ∨ a = 0xef then
          if tail b ∧ tail c then some (three, 3) else none
        else if a = 0xed then
          if 0x80 ≤ b ∧ b ≤ 0x9f ∧ tail c then some (three, 3) else none
        else match rest3 with
        | d :: _ =>
          let d := d.toNat
          let four := (a - 0xf0) * 262144 + (b - 0x80) * 4096 + (c - 0x80) * 64 + (d - 0x80)
          if a = 0xf0 then
            if 0x90 ≤ b ∧ b ≤ 0xbf ∧ tail c ∧ tail d then some (four, 4) else none
          else if 0xf1 ≤ a ∧ a ≤ 0xf3 then
            if tail b ∧ tail c ∧ tail d then some (four, 4) else none
          else if a = 0xf4 then
            if 0x80 ≤ b ∧ b ≤ 0x8f ∧ tail c ∧ tail d then some (four, 4) else none
          else none
        | [] => none
      | [] => none
    | [] => none

/-- The characters of the longest well-formed prefix and the bytes after it. -/
def scan (bytes : List UInt8) : List Char × List UInt8 :=
  match front? bytes with
  | some (code, len) =>
    if 0 < len ∧ len ≤ bytes.length then
      let r := scan (bytes.drop len)
      (Char.ofNat code :: r.1, r.2)
    else ([], bytes)
  | none => ([], bytes)
termination_by bytes.length
decreasing_by simp_wf; omega

/-- Whether a byte can follow the lead byte `a` as the second byte of a well-formed
character of three or four bytes. -/
def secondFits (a b : Nat) : Bool :=
  if a = 0xe0 then 0xa0 ≤ b ∧ b ≤ 0xbf
  else if a = 0xed then 0x80 ≤ b ∧ b ≤ 0x9f
  else if a = 0xf0 then 0x90 ≤ b ∧ b ≤ 0xbf
  else if a = 0xf4 then 0x80 ≤ b ∧ b ≤ 0x8f
  else if (0xe1 ≤ a ∧ a ≤ 0xef) ∨ (0xf1 ≤ a ∧ a ≤ 0xf3) then tail b
  else false

/-- The length of the malformed stretch at the front of bytes that do not start with a whole
character: its lead byte and the bytes after it that still fit a character it could begin,
so one, two or three bytes (the maximal subpart of Unicode's substitution practice). -/
def badLength : List UInt8 → Nat
  | [] => 0
  | a :: rest =>
    match rest with
    | b :: rest2 =>
      if secondFits a.toNat b.toNat then
        let third := match rest2 with
          | c :: _ => tail c.toNat
          | [] => false
        if 0xf0 ≤ a.toNat && third then 3 else 2
      else 1
    | [] => 1

/-- The text of any byte string: each malformed stretch becomes one U+FFFD. -/
def lossy (bytes : List UInt8) : List Char :=
  match bytes with
  | [] => []
  | b :: rest =>
    match front? (b :: rest) with
    | some (code, len) => Char.ofNat code :: lossy (rest.drop (len - 1))
    | none => '\uFFFD' :: lossy (rest.drop (badLength (b :: rest) - 1))
termination_by bytes.length
decreasing_by all_goals (simp only [List.length_drop, List.length_cons]; omega)

/-- The text of a byte string that is well-formed UTF-8. -/
def decode? (bytes : List UInt8) : Option String :=
  let r := scan bytes
  if r.2.isEmpty then some (String.ofList r.1) else none

/-- The UTF-8 bytes of a text. -/
def encode (s : String) : List UInt8 := s.toUTF8.toList

end KeyRelay.Utf8
