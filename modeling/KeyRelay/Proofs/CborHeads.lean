import KeyRelay.Cbor.Reader
import KeyRelay.Proofs.FloatWidth

/-! Reading back the heads the writer puts down. A head is written in its shortest form: an
initial byte with the major type and either the argument itself or how many big-endian
argument bytes follow. `pull` reads each such head back as it was, with the reader left just
after it, whatever bytes follow; a float comes back as the same binary64 pattern because the
narrow form it was written in widens back exactly. A strict prefix of a head is refused.
Main statements: `pull_encode` and `pull_prefix`.

`Reads enough low m bytes a` says that `m`, from any offset from `low` on, reads exactly `bytes`
and returns `a` whatever follows, or fails, and fails only when there is not `enough` fuel; and
that it fails on every strict prefix of `bytes` whatever its fuel. It is closed under `bind`, so
a reader's round trip and its refusal of cut input are proved together, step by step.
-/

namespace KeyRelay.Cbor

section Run

variable {α β : Type} {m : ReadM α} {k : α → ReadM β} {r r' : Reader} {a : α} {e : ReadError}

theorem bind_ok (h : m r = .ok (a, r')) : (m >>= k) r = k a r' := by
  show Except.bind (m r) _ = _
  rw [h]
  rfl

theorem bind_error (h : m r = .error e) : (m >>= k) r = .error e := by
  show Except.bind (m r) _ = _
  rw [h]
  rfl

end Run

theorem readExact_append (xs rest : List UInt8) (off : Nat) (held : Option Head) :
    readExact xs.length ⟨xs ++ rest, off, held⟩ = .ok (xs, ⟨rest, off + xs.length, held⟩) := by
  simp [readExact, get, getThe, MonadStateOf.get, StateT.get, set, StateT.set, bind, StateT.bind,
    Except.bind, pure, StateT.pure, Except.pure]

theorem readExact_short {n : Nat} {bytes : List UInt8} (short : bytes.length < n) (off : Nat)
    (held : Option Head) : readExact n ⟨bytes, off, held⟩ = .error .truncated := by
  simp [readExact, short, get, getThe, MonadStateOf.get, StateT.get, set, StateT.set, bind, StateT.bind,
    Except.bind, pure, Except.pure, throw, throwThe, MonadExceptOf.throw, StateT.lift]

private theorem foldl_digits (xs : List UInt8) (acc : Nat) :
    xs.foldl (fun acc b => acc * 256 + b.toNat) acc = acc * 256 ^ xs.length + ofBigEndian xs := by
  induction xs generalizing acc with
  | nil => simp [ofBigEndian]
  | cons x rest ih =>
    simp only [List.foldl_cons, ofBigEndian, List.length_cons] at ih ⊢
    rw [ih, ih (0 * 256 + x.toNat), Nat.pow_succ]
    ring

theorem ofBigEndian_cons (x : UInt8) (xs : List UInt8) :
    ofBigEndian (x :: xs) = x.toNat * 256 ^ xs.length + ofBigEndian xs := by
  rw [ofBigEndian, List.foldl_cons, foldl_digits, Nat.zero_mul, Nat.zero_add]

@[simp] theorem length_bigEndian (k v : Nat) : (bigEndian k v).length = k := by
  simp [bigEndian]

/-- Big-endian digits spell the number they were taken from, below the width. -/
theorem ofBigEndian_bigEndian (k v : Nat) : ofBigEndian (bigEndian k v) = v % 256 ^ k := by
  induction k with
  | zero => simp [bigEndian, ofBigEndian, Nat.mod_one]
  | succ k ih =>
    have digits : bigEndian (k + 1) v = (v / 256 ^ k % 256).toUInt8 :: bigEndian k v := by
      simp [bigEndian, List.range_succ]
    have digit : (v / 256 ^ k % 256).toUInt8.toNat = v / 256 ^ k % 256 := by
      simp [Nat.toUInt8, Nat.mod_mod_of_dvd]
    rw [digits]
    simp only [ofBigEndian, List.foldl_cons]
    rw [foldl_digits, length_bigEndian, ih, Nat.zero_mul, Nat.zero_add, digit, Nat.pow_succ,
      Nat.mod_mul]
    ring

theorem argument_eq (major n : Nat) : argument major n =
    if n < 24 then [(major * 32 + n).toUInt8]
    else if n < 2 ^ 8 then (major * 32 + 24).toUInt8 :: bigEndian 1 n
    else if n < 2 ^ 16 then (major * 32 + 25).toUInt8 :: bigEndian 2 n
    else if n < 2 ^ 32 then (major * 32 + 26).toUInt8 :: bigEndian 4 n
    else (major * 32 + 27).toUInt8 :: bigEndian 8 n := by
  simp only [argument, bigEndian, Nat.pow_eq]

/-- The head of major type `major` (below 7) with argument `n`. -/
def Head.ofArgument (major n : Nat) : Head :=
  if major = 0 then .unsigned n else if major = 1 then .negative n
  else if major = 2 then .bytes (some n) else if major = 3 then .text (some n)
  else if major = 4 then .array (some n) else if major = 5 then .map (some n) else .tag n

/-- The head of major type 7 with low bits `minor` and argument `n`: a simple value, or a float
of the width the low bits name, widened to binary64. -/
def Head.ofSeven (minor n : Nat) : Head :=
  if minor < 25 then .simple n
  else if minor = 25 then .float (Binary.widen Binary.half n).toUInt64
  else if minor = 26 then .float (Binary.widen Binary.single n).toUInt64
  else .float n.toUInt64

/-- The argument bytes that follow an initial byte with these low bits. -/
def argLength (minor : Nat) : Nat :=
  if minor < 24 then 0 else if minor = 24 then 1 else if minor = 25 then 2
  else if minor = 26 then 4 else if minor = 27 then 8 else 0

section Initial

variable {major minor : Nat} (hminor : minor < 28) {digits : List UInt8} (rest : List UInt8) (off : Nat)
  (hlen : digits.length = argLength minor)
include hminor hlen

theorem pull_initial (hmajor : major ≤ 6) :
    pull ⟨(major * 32 + minor).toUInt8 :: (digits ++ rest), off, none⟩ =
      .ok (Head.ofArgument major (if minor < 24 then minor else ofBigEndian digits),
        ⟨rest, off + 1 + digits.length, none⟩) := by
  have wrap : (major * 32 + minor) % 256 = major * 32 + minor := Nat.mod_eq_of_lt (by omega)
  have arg : (if minor < 24 then some minor else some (ofBigEndian digits)) =
      some (if minor < 24 then minor else ofBigEndian digits) := by split <;> rfl
  have high : (major * 32 + minor) / 32 = major := by omega
  have low : (major * 32 + minor) % 32 = minor := by omega
  have notReserved : ¬ (28 ≤ minor ∧ minor ≤ 30) := by omega
  have notOpen : minor ≠ 31 := by omega
  simp only [argLength] at hlen
  simp [pull, ← hlen, wrap, high, low, notReserved, notOpen, readExact, get, getThe, MonadStateOf.get,
    StateT.get, set, StateT.set, bind, StateT.bind, Except.bind, pure, StateT.pure, Except.pure,
    List.take_append, arg]
  interval_cases major <;> rfl

theorem pull_seven :
    pull ⟨(7 * 32 + minor).toUInt8 :: (digits ++ rest), off, none⟩ =
      .ok (Head.ofSeven minor (if minor < 24 then minor else ofBigEndian digits),
        ⟨rest, off + 1 + digits.length, none⟩) := by
  have wrap : (7 * 32 + minor) % 256 = 7 * 32 + minor := Nat.mod_eq_of_lt (by omega)
  have arg : (if minor < 24 then some minor else some (ofBigEndian digits)) =
      some (if minor < 24 then minor else ofBigEndian digits) := by split <;> rfl
  have high : (7 * 32 + minor) / 32 = 7 := by omega
  have low : (7 * 32 + minor) % 32 = minor := by omega
  have notReserved : ¬ (28 ≤ minor ∧ minor ≤ 30) := by omega
  have notOpen : minor ≠ 31 := by omega
  simp only [argLength] at hlen
  simp [pull, ← hlen, wrap, high, low, notReserved, notOpen, readExact, get, getThe, MonadStateOf.get,
    StateT.get, set, StateT.set, bind, StateT.bind, Except.bind, pure, StateT.pure, Except.pure,
    List.take_append, arg, Head.ofSeven]
  split_ifs <;> rfl

end Initial

/-- The indefinite-length heads and the break: the low bits are all ones and no argument follows. -/
theorem pull_open {major : Nat} (hmajor : major = 2 ∨ major = 3 ∨ major = 4 ∨ major = 5 ∨ major = 7)
    (rest : List UInt8) (off : Nat) :
    pull ⟨(major * 32 + 31).toUInt8 :: rest, off, none⟩ =
      .ok ((if major = 2 then .bytes none else if major = 3 then .text none else if major = 4 then .array none
        else if major = 5 then .map none else .stop), ⟨rest, off + 1, none⟩) := by
  have high : (major * 32 + 31) / 32 = major := by omega
  have low : (major * 32 + 31) % 32 = 31 := by omega
  rcases hmajor with rfl | rfl | rfl | rfl | rfl <;>
    simp [pull, high, low, readExact, get, getThe, MonadStateOf.get, StateT.get, set, StateT.set, bind,
      StateT.bind, Except.bind, pure, StateT.pure, Except.pure]

theorem pull_wide {major : Nat} (hmajor : major ≤ 6) (minor : Nat) (low : 24 ≤ minor) (hminor : minor < 28)
    {n : Nat} (hn : n < 256 ^ argLength minor) (rest : List UInt8) (off : Nat) :
    pull ⟨(major * 32 + minor).toUInt8 :: (bigEndian (argLength minor) n ++ rest), off, none⟩ =
      .ok (Head.ofArgument major n, ⟨rest, off + 1 + argLength minor, none⟩) := by
  rw [pull_initial hminor rest off (length_bigEndian _ _) hmajor, if_neg (by omega), ofBigEndian_bigEndian,
    Nat.mod_eq_of_lt hn, length_bigEndian]

theorem pull_argument {major n : Nat} (hmajor : major ≤ 6) (hn : n < 2 ^ 64) (rest : List UInt8) (off : Nat) :
    pull ⟨argument major n ++ rest, off, none⟩ =
      .ok (Head.ofArgument major n, ⟨rest, off + (argument major n).length, none⟩) := by
  rw [argument_eq]
  split_ifs with small h8 h16 h32
  · simpa [small] using @pull_initial major n (by omega) [] rest off (by simp [argLength, small]) hmajor
  · simpa [argLength] using pull_wide hmajor 24 le_rfl (by decide) (by simp [argLength]; omega) rest off
  · simpa [argLength] using pull_wide hmajor 25 (by decide) (by decide) (by simp [argLength]; omega) rest off
  · simpa [argLength] using pull_wide hmajor 26 (by decide) (by decide) (by simp [argLength]; omega) rest off
  · simpa [argLength] using pull_wide hmajor 27 (by decide) (by decide) (by simp [argLength]; omega) rest off

/-- The heads the writer puts down: an argument or a length fits in eight bytes and a simple
value in one. -/
inductive Head.Fits : Head → Prop
  | unsigned {n : Nat} : n < 2 ^ 64 → Head.Fits (.unsigned n)
  | negative {n : Nat} : n < 2 ^ 64 → Head.Fits (.negative n)
  | bytes {len : Option Nat} : (∀ n ∈ len, n < 2 ^ 64) → Head.Fits (.bytes len)
  | text {len : Option Nat} : (∀ n ∈ len, n < 2 ^ 64) → Head.Fits (.text len)
  | array {len : Option Nat} : (∀ n ∈ len, n < 2 ^ 64) → Head.Fits (.array len)
  | map {len : Option Nat} : (∀ n ∈ len, n < 2 ^ 64) → Head.Fits (.map len)
  | tag {n : Nat} : n < 2 ^ 64 → Head.Fits (.tag n)
  | simple {n : Nat} : n < 256 → Head.Fits (.simple n)
  | float (bits : UInt64) : Head.Fits (.float bits)
  | stop : Head.Fits .stop

theorem length_fits {n : Nat} (small : n < 2 ^ 64) : ∀ m ∈ some n, m < 2 ^ 64 := by
  simpa using small

theorem pull_lengthArgument {major : Nat} (hmajor : 2 ≤ major ∧ major ≤ 5) {len : Option Nat}
    (fits : ∀ n ∈ len, n < 2 ^ 64) (rest : List UInt8) (off : Nat) :
    pull ⟨lengthArgument major len ++ rest, off, none⟩ =
      .ok ((if major = 2 then .bytes len else if major = 3 then .text len else if major = 4 then .array len
        else .map len), ⟨rest, off + (lengthArgument major len).length, none⟩) := by
  cases len with
  | none =>
    have := @pull_open major (by omega) rest off
    rcases hmajor with ⟨h2, h5⟩
    interval_cases major <;> simpa [lengthArgument] using this
  | some n =>
    have := pull_argument (by omega : major ≤ 6) (fits n rfl) rest off
    rcases hmajor with ⟨h2, h5⟩
    interval_cases major <;> simpa [lengthArgument, Head.ofArgument] using this

theorem pull_simple {n : Nat} (hn : n < 256) (rest : List UInt8) (off : Nat) :
    pull ⟨(Head.simple n).encode ++ rest, off, none⟩ =
      .ok (.simple n, ⟨rest, off + (Head.simple n).encode.length, none⟩) := by
  by_cases small : n < 24
  · have := @pull_seven n (by omega) [] rest off (by simp [argLength, small])
    simpa [Head.encode, small, Head.ofSeven, show 7 * 32 + n = 224 + n by omega, show n < 25 by omega] using this
  · have := @pull_seven 24 (by decide) [n.toUInt8] rest off (by simp [argLength])
    simpa [Head.encode, small, Head.ofSeven, ofBigEndian, Nat.mod_eq_of_lt hn] using this

theorem pull_float (bits : UInt64) (rest : List UInt8) (off : Nat) :
    pull ⟨(Head.float bits).encode ++ rest, off, none⟩ =
      .ok (.float bits, ⟨rest, off + (Head.float bits).encode.length, none⟩) := by
  simp only [Head.encode, floatBytes]
  cases toHalf : Binary.narrow? Binary.half bits.toNat with
  | some v =>
    obtain ⟨back, bound⟩ := Binary.widen_narrow (by decide) (by decide) (by decide) bits.toNat_lt toHalf
    have := @pull_seven 25 (by decide) (bigEndian 2 v) rest off (by simp [argLength])
    simpa [Head.ofSeven, ofBigEndian_bigEndian, Nat.mod_eq_of_lt (show v < 65536 by simpa [Binary.half, Binary.Format.fractionBits] using bound), back]
      using this
  | none =>
    cases toSingle : Binary.narrow? Binary.single bits.toNat with
    | some v =>
      obtain ⟨back, bound⟩ := Binary.widen_narrow (by decide) (by decide) (by decide) bits.toNat_lt toSingle
      have := @pull_seven 26 (by decide) (bigEndian 4 v) rest off (by simp [argLength])
      simpa [Head.ofSeven, ofBigEndian_bigEndian, Nat.mod_eq_of_lt (show v < 4294967296 by simpa [Binary.single, Binary.Format.fractionBits] using bound), back]
        using this
    | none =>
      have := @pull_seven 27 (by decide) (bigEndian 8 bits.toNat) rest off (by simp [argLength])
      simpa [Head.ofSeven, ofBigEndian_bigEndian, Nat.mod_eq_of_lt (show bits.toNat < 256 ^ 8 from bits.toNat_lt)]
        using this

/-- A head the writer puts down is read back as it was, with the reader just after it. -/
theorem pull_encode {h : Head} (fits : h.Fits) (rest : List UInt8) (off : Nat) :
    pull ⟨h.encode ++ rest, off, none⟩ = .ok (h, ⟨rest, off + h.encode.length, none⟩) := by
  cases fits with
  | unsigned hn => exact @pull_argument 0 _ (by decide) hn rest off
  | negative hn => exact @pull_argument 1 _ (by decide) hn rest off
  | bytes hlen => exact @pull_lengthArgument 2 (by decide) _ hlen rest off
  | text hlen => exact @pull_lengthArgument 3 (by decide) _ hlen rest off
  | array hlen => exact @pull_lengthArgument 4 (by decide) _ hlen rest off
  | map hlen => exact @pull_lengthArgument 5 (by decide) _ hlen rest off
  | tag hn => exact @pull_argument 6 _ (by decide) hn rest off
  | simple hn => exact pull_simple hn rest off
  | float bits => exact pull_float bits rest off
  | stop => exact @pull_open 7 (by decide) rest off

theorem pull_held (h : Head) (rest : List UInt8) (off : Nat) :
    pull ⟨rest, off, some h⟩ = .ok (h, ⟨rest, off + h.encode.length, none⟩) := by
  simp [pull, get, getThe, MonadStateOf.get, StateT.get, set, StateT.set, bind, StateT.bind, Except.bind, pure,
    StateT.pure, Except.pure]

theorem pull_nil (off : Nat) : pull ⟨[], off, none⟩ = .error .truncated := by
  simp [pull, readExact, get, getThe, MonadStateOf.get, StateT.get, set, StateT.set, bind, StateT.bind,
    Except.bind, pure, Except.pure, throw, throwThe, MonadExceptOf.throw, StateT.lift]

theorem pull_short {b : UInt8} {p : List UInt8} (notReserved : ¬ (28 ≤ b.toNat % 32 ∧ b.toNat % 32 ≤ 30))
    (short : p.length < argLength (b.toNat % 32)) (off : Nat) : pull ⟨b :: p, off, none⟩ = .error .truncated := by
  simp only [argLength] at short
  split_ifs at short <;>
    simp [pull, *, readExact, get, getThe, MonadStateOf.get, StateT.get, set, StateT.set, bind,
      StateT.bind, Except.bind, pure, StateT.pure, Except.pure, throw, throwThe, MonadExceptOf.throw, StateT.lift]

private theorem minor_initial {major minor : Nat} (hmajor : major ≤ 7) (hminor : minor < 32) :
    (major * 32 + minor).toUInt8.toNat % 32 = minor := by
  simp [Nat.toUInt8, Nat.mod_eq_of_lt (show major * 32 + minor < 256 by omega)]
  omega

/-- Every head the writer puts down is an initial byte, not a reserved one, followed by as many
argument bytes as its low bits call for. -/
theorem Head.encode_cons {h : Head} (fits : h.Fits) : ∃ b digits, h.encode = b :: digits ∧
    digits.length = argLength (b.toNat % 32) ∧ ¬ (28 ≤ b.toNat % 32 ∧ b.toNat % 32 ≤ 30) := by
  have ofArgument : ∀ major n, major ≤ 7 → ∃ b digits, argument major n = b :: digits ∧
      digits.length = argLength (b.toNat % 32) ∧ ¬ (28 ≤ b.toNat % 32 ∧ b.toNat % 32 ≤ 30) := by
    intro major n hmajor
    rw [argument_eq]
    split_ifs <;> refine ⟨_, _, rfl, ?_⟩ <;> rw [minor_initial hmajor (by omega)] <;> simp [argLength]
    omega
  have ofLength : ∀ major (len : Option Nat), major ≤ 7 → ∃ b digits, lengthArgument major len = b :: digits ∧
      digits.length = argLength (b.toNat % 32) ∧ ¬ (28 ≤ b.toNat % 32 ∧ b.toNat % 32 ≤ 30) := by
    intro major len hmajor
    cases len with
    | some n => exact ofArgument major n hmajor
    | none => exact ⟨_, [], rfl, by rw [minor_initial hmajor (by omega)]; rfl, by rw [minor_initial hmajor (by omega)]; omega⟩
  cases fits with
  | unsigned => exact ofArgument 0 _ (by omega)
  | negative => exact ofArgument 1 _ (by omega)
  | bytes => exact ofLength 2 _ (by omega)
  | text => exact ofLength 3 _ (by omega)
  | array => exact ofLength 4 _ (by omega)
  | map => exact ofLength 5 _ (by omega)
  | tag => exact ofArgument 6 _ (by omega)
  | @simple n _ =>
    by_cases small : n < 24
    · have low : (224 + n).toUInt8.toNat % 32 = n := @minor_initial 7 n (by omega) (by omega)
      rw [Head.encode, if_pos small]
      exact ⟨_, [], rfl, by rw [low]; simp [argLength, small], by omega⟩
    · rw [Head.encode, if_neg small]
      exact ⟨_, _, rfl, by simp [argLength], by decide⟩
  | float bits =>
    simp only [Head.encode, floatBytes]
    split
    · exact ⟨_, _, rfl, by simp [argLength], by decide⟩
    · split
      · exact ⟨_, _, rfl, by simp [argLength], by decide⟩
      · exact ⟨_, _, rfl, by simp [argLength], by decide⟩
  | stop => exact ⟨_, [], rfl, by decide, by decide⟩

/-- A strict prefix of a head the writer puts down is refused as cut short. -/
theorem pull_prefix {h : Head} (fits : h.Fits) {p : List UInt8} (hp : p <+: h.encode)
    (short : p.length < h.encode.length) (off : Nat) : pull ⟨p, off, none⟩ = .error .truncated := by
  obtain ⟨b, digits, henc, hlen, notReserved⟩ := Head.encode_cons fits
  rw [henc] at hp short
  cases p with
  | nil => exact pull_nil off
  | cons c p =>
    obtain ⟨rfl, hp⟩ := List.cons_prefix_cons.mp hp
    exact pull_short notReserved (by simp at short; omega) off

section Reads

variable {α β : Type} {enough : Prop} {low : Nat} {a : α} {b : β}

/-- What a reader gives where `expected` is due: exactly that, or an error, and an error only
when there is not `enough` fuel. -/
def Outcome (enough : Prop) (result : Except ReadError (α × Reader)) (expected : α × Reader) : Prop :=
  result = .ok expected ∨ (¬ enough ∧ ∃ e, result = .error e)

theorem Outcome.ok {result : Except ReadError (α × Reader)} {expected : α × Reader}
    (outcome : Outcome True result expected) : result = .ok expected := by
  rcases outcome with done | ⟨short, -⟩
  · exact done
  · exact absurd trivial short

theorem Outcome.weaken {enough' : Prop} {result : Except ReadError (α × Reader)} {expected : α × Reader}
    (outcome : Outcome enough result expected) (less : enough' → enough) : Outcome enough' result expected := by
  rcases outcome with done | ⟨short, failed⟩
  · exact Or.inl done
  · exact Or.inr ⟨fun given => short (less given), failed⟩

theorem Outcome.bind {m : ReadM α} {k : α → ReadM β} {r r' : Reader} {x : β × Reader}
    (first : Outcome enough (m r) (a, r')) (next : Outcome enough (k a r') x) :
    Outcome enough ((m >>= k) r) x := by
  rcases first with done | ⟨short, e, failed⟩
  · rwa [bind_ok done]
  · exact Or.inr ⟨short, e, bind_error failed⟩

/-- From any offset at least `low`, with no head held, `m` reads exactly `bytes` and returns `a`
whatever follows them, or fails for want of fuel when not `enough`; on every strict prefix of
`bytes` it fails. -/
structure Reads (enough : Prop) (low : Nat) (m : ReadM α) (bytes : List UInt8) (a : α) : Prop where
  run : ∀ rest off, low ≤ off →
    Outcome enough (m ⟨bytes ++ rest, off, none⟩) (a, ⟨rest, off + bytes.length, none⟩)
  cut : ∀ p off, low ≤ off → p <+: bytes → p.length < bytes.length → ∃ e, m ⟨p, off, none⟩ = .error e

/-- The same when the head `h` is held: `m` takes it again, then reads `bytes` after it. -/
structure ReadsHeld (enough : Prop) (low : Nat) (h : Head) (m : ReadM α) (bytes : List UInt8) (a : α) :
    Prop where
  run : ∀ rest off, low ≤ off →
    Outcome enough (m ⟨bytes ++ rest, off, some h⟩) (a, ⟨rest, off + h.encode.length + bytes.length, none⟩)
  cut : ∀ p off, low ≤ off → p <+: bytes → p.length < bytes.length → ∃ e, m ⟨p, off, some h⟩ = .error e

section Plain

variable {m : ReadM α} {bytes : List UInt8}

theorem Reads.weaken {enough' : Prop} (reads : Reads enough low m bytes a) (less : enough' → enough) :
    Reads enough' low m bytes a :=
  ⟨fun rest off le => (reads.run rest off le).weaken less, reads.cut⟩

/-- A strict prefix of two readings in a row is a strict prefix of the first, or the whole first
followed by a strict prefix of the second. -/
theorem prefix_append_cases {p front back : List UInt8} (hp : p <+: front ++ back)
    (short : p.length < (front ++ back).length) :
    (p <+: front ∧ p.length < front.length) ∨ ∃ q, p = front ++ q ∧ q <+: back ∧ q.length < back.length := by
  by_cases within : p.length < front.length
  · exact Or.inl ⟨List.prefix_of_prefix_length_le hp (List.prefix_append front back) within.le, within⟩
  · have frontFirst : front <+: p :=
      List.prefix_of_prefix_length_le (List.prefix_append front back) hp (by omega)
    obtain ⟨q, rfl⟩ := frontFirst
    refine Or.inr ⟨q, rfl, (List.prefix_append_right_inj front).mp hp, ?_⟩
    simp only [List.length_append] at short
    omega

theorem Reads.bind {k : α → ReadM β} {front back : List UInt8}
    (first : Reads enough low m front a) (next : Reads enough (low + front.length) (k a) back b) :
    Reads enough low (m >>= k) (front ++ back) b where
  run rest off le := by
    rw [List.append_assoc, List.length_append, ← Nat.add_assoc]
    exact (first.run (back ++ rest) off le).bind (next.run rest (off + front.length) (by omega))
  cut p off le hp short := by
    rcases prefix_append_cases hp short with ⟨hp, short⟩ | ⟨q, rfl, hq, short⟩
    · obtain ⟨e, failed⟩ := first.cut p off le hp short
      exact ⟨e, bind_error failed⟩
    · rcases first.run q off le with done | ⟨-, e, failed⟩
      · rw [bind_ok done]
        exact next.cut q (off + front.length) (by omega) hq short
      · exact ⟨e, bind_error failed⟩

theorem Reads.pure : Reads enough low (pure a : ReadM α) [] a :=
  ⟨fun _ _ _ => Or.inl rfl, fun _ _ _ _ short => absurd short (by simp)⟩

theorem Reads.fail (short : ¬ enough) (fails : ∀ r, ∃ e, m r = .error e) : Reads enough low m bytes a :=
  ⟨fun _ _ _ => Or.inr ⟨short, fails _⟩, fun _ _ _ _ _ => fails _⟩

theorem Reads.offset_bind {k : Nat → ReadM α} (next : ∀ o, Reads enough low (k o) bytes a) :
    Reads enough low (offset >>= k) bytes a where
  run rest off le := (next off).run rest off le
  cut p off le hp short := (next off).cut p off le hp short

theorem Reads.pull {h : Head} (fits : h.Fits) : Reads enough low pull h.encode h :=
  ⟨fun rest off _ => Or.inl (pull_encode fits rest off), fun _ off _ hp short => ⟨_, pull_prefix fits hp short off⟩⟩

theorem Reads.readExact : Reads enough low (readExact bytes.length) bytes bytes :=
  ⟨fun rest off _ => Or.inl (readExact_append bytes rest off none),
    fun _ off _ _ short => ⟨_, readExact_short short off none⟩⟩

theorem Reads.bind_pure {k : α → ReadM β} (first : Reads enough low m bytes a) (next : k a = Pure.pure b) :
    Reads enough low (m >>= k) bytes b := by
  have reads := first.bind (next ▸ Reads.pure)
  rwa [List.append_nil] at reads

theorem Reads.map (f : α → β) (reads : Reads enough low m bytes a) :
    Reads enough low (m >>= fun x => Pure.pure (f x)) bytes (f a) :=
  reads.bind_pure rfl

end Plain

section Held

variable {h : Head} {m : ReadM α} {bytes : List UInt8}

theorem Reads.push (held : ReadsHeld enough low h m bytes a) :
    Reads enough (low + h.encode.length) (Cbor.push h >>= fun _ => m) bytes a where
  run rest off le := by
    have back := held.run rest (off - h.encode.length) (by omega)
    rw [Nat.sub_add_cancel (by omega)] at back
    exact back
  cut p off le hp short := held.cut p (off - h.encode.length) (by omega) hp short

theorem ReadsHeld.weaken {enough' : Prop} (reads : ReadsHeld enough low h m bytes a) (less : enough' → enough) :
    ReadsHeld enough' low h m bytes a :=
  ⟨fun rest off le => (reads.run rest off le).weaken less, reads.cut⟩

theorem ReadsHeld.fail (short : ¬ enough) (fails : ∀ r, ∃ e, m r = .error e) : ReadsHeld enough low h m bytes a :=
  ⟨fun _ _ _ => Or.inr ⟨short, fails _⟩, fun _ _ _ _ _ => fails _⟩

theorem ReadsHeld.pull : ReadsHeld enough low h Cbor.pull [] h :=
  ⟨fun rest off _ => Or.inl (pull_held h rest off), fun _ _ _ _ short => absurd short (by simp)⟩

theorem ReadsHeld.bind {k : α → ReadM β} {front back : List UInt8} (first : ReadsHeld enough low h m front a)
    (next : Reads enough (low + h.encode.length + front.length) (k a) back b) :
    ReadsHeld enough low h (m >>= k) (front ++ back) b where
  run rest off le := by
    rw [List.append_assoc, List.length_append, ← Nat.add_assoc]
    exact (first.run (back ++ rest) off le).bind (next.run rest _ (by omega))
  cut p off le hp short := by
    rcases prefix_append_cases hp short with ⟨hp, short⟩ | ⟨q, rfl, hq, short⟩
    · obtain ⟨e, failed⟩ := first.cut p off le hp short
      exact ⟨e, bind_error failed⟩
    · rcases first.run q off le with done | ⟨-, e, failed⟩
      · rw [bind_ok done]
        exact next.cut q _ (by omega) hq short
      · exact ⟨e, bind_error failed⟩

theorem ReadsHeld.bind_pure {k : α → ReadM β} (first : ReadsHeld enough low h m bytes a)
    (next : k a = Pure.pure b) : ReadsHeld enough low h (m >>= k) bytes b := by
  have reads := first.bind (next ▸ Reads.pure)
  rwa [List.append_nil] at reads

theorem ReadsHeld.map (f : α → β) (reads : ReadsHeld enough low h m bytes a) :
    ReadsHeld enough low h (m >>= fun x => Pure.pure (f x)) bytes (f a) :=
  reads.bind_pure rfl

theorem ReadsHeld.pull_bind {k : Head → ReadM α} (next : Reads enough (low + h.encode.length) (k h) bytes a) :
    ReadsHeld enough low h (Cbor.pull >>= k) bytes a := by
  have reads := ReadsHeld.bind ReadsHeld.pull (by simpa using next)
  rwa [List.nil_append] at reads

theorem ReadsHeld.offset_bind {k : Nat → ReadM α} (next : ∀ o, ReadsHeld enough low h (k o) bytes a) :
    ReadsHeld enough low h (offset >>= k) bytes a where
  run rest off le := (next off).run rest off le
  cut p off le hp short := (next off).cut p off le hp short

end Held

end Reads

end KeyRelay.Cbor
