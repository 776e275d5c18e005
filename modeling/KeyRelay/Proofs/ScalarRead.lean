import KeyRelay.Wire.Read
import KeyRelay.Proofs.CborHeads
import KeyRelay.Proofs.Utf8Scan

/-! Reading back the leaves of a value: text, names, integers up to 128 bits, booleans and floats.
Text content is read in pieces of at most 4096 bytes, each checked as UTF-8 with the piece of a
character cut at its end carried into the next, so the text's bytes pass whole however the
pieces fall; an integer of 64 bits or more is a tag-2 byte string of its significant bytes. Each
reader is shown to read exactly its leaf's bytes and to fail on every strict prefix of them.
-/

namespace KeyRelay.Cbor

open Utf8 in
/-- Text content read in pieces: whatever the pieces cut, the whole characters pass and the piece
of a character left at a cut is carried into the next piece. -/
theorem readPieces_text (so : Nat) : ∀ (fuel : Nat) (post : List Char) (carry unread rest acc : List UInt8)
    (off : Nat), carry ++ unread = post.flatMap String.utf8EncodeChar → front? carry = none →
    unread.length < fuel →
    readPieces true so fuel unread.length carry acc ⟨unread ++ rest, off, none⟩ =
      .ok (acc ++ post.flatMap String.utf8EncodeChar, ⟨rest, off + unread.length, none⟩) := by
  intro fuel
  induction fuel with
  | zero => intro _ _ _ _ _ _ _ _ short; omega
  | succ fuel ih =>
    intro post carry unread rest acc off whole stuck short
    have carryShort : carry.length ≤ 3 := stuck_length stuck (whole ▸ List.prefix_append carry unread)
    by_cases done : unread = []
    · subst done
      rw [List.append_nil] at whole
      subst whole
      obtain rfl := eq_nil_of_stuck stuck
      simp [readPieces, pure, StateT.pure, Except.pure]
    · -- the next piece: the carried bytes and as many fresh ones as fit
      have size : min pieceSize (carry.length + unread.length) - min (min pieceSize (carry.length + unread.length))
          carry.length = min (pieceSize - carry.length) unread.length := by
        simp only [pieceSize]; omega
      set m := min (pieceSize - carry.length) unread.length with hm
      have positive : 0 < m := by
        have := List.length_pos_iff.mpr done
        simp only [pieceSize] at hm; omega
      have split : unread ++ rest = unread.take m ++ (unread.drop m ++ rest) := by
        rw [← List.append_assoc, List.take_append_drop]
      have taken : (unread.take m).length = m := by simp; omega
      have piecePrefix : carry ++ unread.take m <+: post.flatMap String.utf8EncodeChar :=
        whole ▸ (List.prefix_append_right_inj carry).mpr (List.take_prefix m unread)
      obtain ⟨j, left, piece, leftStuck, leftPrefix⟩ := prefix_encodeChars piecePrefix
      have leftShort := stuck_length leftStuck leftPrefix
      have rest' : left ++ unread.drop m = (post.drop j).flatMap String.utf8EncodeChar := by
        have := whole
        rw [← List.take_append_drop j post, List.flatMap_append, ← List.take_append_drop m unread,
          ← List.append_assoc, piece, List.append_assoc] at this
        exact List.append_cancel_left this
      have next := ih (post.drop j) left (unread.drop m) rest (acc ++ (post.take j).flatMap String.utf8EncodeChar)
        (off + m) rest' leftStuck (by simp; omega)
      have read := readExact_append (unread.take m) (unread.drop m ++ rest) off none
      rw [taken] at read
      rw [readPieces, if_neg (by simpa using done)]
      dsimp only
      rw [size, split, bind_ok read, if_pos rfl, piece, scan_append _ leftStuck]
      dsimp only
      rw [if_neg (by omega), List.length_append, Nat.add_sub_cancel, List.take_left, taken, ← List.length_drop, next,
        List.append_assoc, ← List.flatMap_append, List.take_append_drop, List.length_drop]
      congr 3
      omega

/-- Content read in pieces fails when fewer bytes remain than the segment's length, in text and
in bytes alike. -/
theorem readPieces_cut (isText : Bool) (so : Nat) : ∀ (fuel unread : Nat) (carry acc p : List UInt8)
    (off : Nat), carry.length ≤ 3 → unread < fuel → p.length < unread →
    ∃ e, readPieces isText so fuel unread carry acc ⟨p, off, none⟩ = .error e := by
  intro fuel
  induction fuel with
  | zero => intro _ _ _ _ _ _ _ short; omega
  | succ fuel ih =>
    intro unread carry acc p off carryShort short cut
    have size : min pieceSize (carry.length + unread) - min (min pieceSize (carry.length + unread))
        carry.length = min (pieceSize - carry.length) unread := by
      simp only [pieceSize]; omega
    rw [readPieces, if_neg (by omega)]
    dsimp only
    rw [size]
    set m := min (pieceSize - carry.length) unread with hm
    have positive : 0 < m := by simp only [pieceSize] at hm; omega
    by_cases enough : m ≤ p.length
    · have read := readExact_append (p.take m) (p.drop m) off none
      rw [List.take_append_drop, List.length_take_of_le enough] at read
      rw [bind_ok read]
      have later : (p.drop m).length < unread - (p.take m).length := by simp; omega
      cases isText
      · exact ih _ [] _ _ _ (by simp) (by simp; omega) later
      · rw [if_pos rfl]
        split_ifs with long
        · exact ⟨_, rfl⟩
        · exact ih _ _ _ _ _ (by omega) (by simp; omega) later
    · exact ⟨_, bind_error (readExact_short (by omega) off none)⟩

section Text

open Utf8

variable {enough : Prop} {low : Nat}

theorem readPieces_reads (so : Nat) (s : String) :
    Reads enough low (readPieces true so ((encode s).length + 2) (encode s).length [] []) (encode s) (encode s) where
  run rest off _ := by
    have whole : [] ++ encode s = s.toList.flatMap String.utf8EncodeChar := encode_eq s
    left
    rw [Cbor.readPieces_text so _ s.toList [] (encode s) rest [] off whole rfl (by omega), List.nil_append,
      ← encode_eq]
  cut p off _ _ short := readPieces_cut true so _ _ [] [] p off (by simp) (by omega) short

/-- The content of a definite text whose head is held. -/
theorem readSegments_text (s : String) (g : Nat) :
    ReadsHeld (1 ≤ g) low (.text (some (encode s).length)) (readSegments true g 0) (encode s) (encode s) := by
  rcases g with _ | f
  · exact ReadsHeld.fail (by omega) fun _ => ⟨_, rfl⟩
  rw [readSegments]
  apply ReadsHeld.offset_bind
  intro o
  apply ReadsHeld.pull_bind
  simp only [↓reduceIte]
  exact (readPieces_reads o s).map id

end Text

end KeyRelay.Cbor

namespace KeyRelay.Wire

open Cbor Utf8

variable {enough : Prop} {low : Nat}

theorem readTextItem_reads {s : String} (fits : (encode s).length < 2 ^ 64) (g : Nat) :
    Reads (2 ≤ g) low (readTextItem g) (textBytes s) s := by
  rcases g with _ | f
  · exact Reads.fail (by omega) fun _ => ⟨_, rfl⟩
  rw [readTextItem]
  apply Reads.bind (Reads.pull (.text (by simpa using fits)))
  apply Reads.push
  have content : ReadsHeld (2 ≤ f + 1) low _ _ _ _ :=
    ((readSegments_text s f).map fun bytes => (decode? bytes).getD "").weaken (by omega)
  simpa [decode?_encode] using content


theorem readKey_reads {name : String} (short : (encode name).length ≤ pieceSize) (g : Nat) :
    Reads (1 ≤ g) low (readKey g) (textBytes name) (.inl name) := by
  rcases g with _ | f
  · exact Reads.fail (by omega) fun _ => ⟨_, rfl⟩
  rw [readKey]
  apply Reads.offset_bind
  intro o
  have fits : (encode name).length < 2 ^ 64 := by simp only [pieceSize] at short; omega
  apply Reads.bind (Reads.pull (.text (by simpa using fits)))
  dsimp only
  rw [if_pos short]
  exact Reads.bind_pure Reads.readExact (by rw [decode?_encode])

theorem readKey_held {name : String} (short : (encode name).length ≤ pieceSize) (g : Nat) :
    ReadsHeld (1 ≤ g) low (.text (some (encode name).length)) (readKey g) (encode name) (.inl name) := by
  rcases g with _ | f
  · exact ReadsHeld.fail (by omega) fun _ => ⟨_, rfl⟩
  rw [readKey]
  apply ReadsHeld.offset_bind
  intro o
  apply ReadsHeld.pull_bind
  dsimp only
  rw [if_pos short]
  exact Reads.bind_pure Reads.readExact (by rw [decode?_encode])

theorem readInteger_small {n : Nat} (small : n < 2 ^ 64) (g : Nat) :
    Reads (1 ≤ g) low (readInteger g none) (Head.encode (.unsigned n)) (false, n) := by
  rcases g with _ | f
  · exact Reads.fail (by omega) fun _ => ⟨_, rfl⟩
  rw [readInteger]
  exact Reads.bind_pure (Reads.pull (.unsigned small)) rfl

theorem readBool_reads (b : Bool) (g : Nat) :
    Reads (1 ≤ g) low (readBool g) (Head.encode (.simple (if b then simpleTrue else simpleFalse))) b := by
  rcases g with _ | f
  · exact Reads.fail (by omega) fun _ => ⟨_, rfl⟩
  rw [readBool]
  apply Reads.offset_bind
  intro o
  cases b
  · exact Reads.bind_pure (Reads.pull (.simple (by decide))) rfl
  · exact Reads.bind_pure (Reads.pull (.simple (by decide))) rfl

theorem readReal_reads (bits : UInt64) (g : Nat) :
    Reads (1 ≤ g) low (readReal g) (Head.encode (.float bits)) bits := by
  rcases g with _ | f
  · exact Reads.fail (by omega) fun _ => ⟨_, rfl⟩
  rw [readReal]
  exact Reads.bind_pure (Reads.pull (.float bits)) rfl

theorem ofBigEndian_dropWhile (xs : List UInt8) : ofBigEndian (xs.dropWhile (· == 0)) = ofBigEndian xs := by
  induction xs with
  | nil => rfl
  | cons x xs ih =>
    by_cases zero : x = 0
    · rw [List.dropWhile_cons_of_pos (by simpa using zero), ih, ofBigEndian_cons, zero]
      simp
    · rw [List.dropWhile_cons_of_neg (by simpa using zero)]

/-- Significant bytes are gathered one by one: no zero is skipped once a digit has been seen, and
sixteen of them fit. -/
private theorem foldlM_significant (digits : List UInt8) : ∀ (count value : Nat),
    (count = 0 → ∀ x ∈ digits.head?, x ≠ 0) → count + digits.length ≤ 16 →
    List.foldlM (fun (acc : Nat × Nat) b =>
        if acc.1 = 16 then (Except.error (refuse "bigint too large") : Except ReadError (Nat × Nat))
        else if acc.1 = 0 ∧ b = 0 then .ok acc
        else .ok (acc.1 + 1, acc.2 * 256 + b.toNat)) (count, value) digits =
      .ok (count + digits.length, value * 256 ^ digits.length + ofBigEndian digits) := by
  induction digits with
  | nil => intro count value _ _; simp [ofBigEndian]; rfl
  | cons x xs ih =>
    intro count value lead fits
    have notFull : count ≠ 16 := by simp at fits; omega
    have kept : ¬ (count = 0 ∧ x = 0) := fun both => lead both.1 x rfl both.2
    rw [List.foldlM_cons]
    simp only [notFull, kept, if_false]
    rw [show ∀ (y : Nat × Nat) (g : Nat × Nat → Except ReadError (Nat × Nat)), (Except.ok y >>= g) = g y from
      fun _ _ => rfl, ih (count + 1) (value * 256 + x.toNat) (by omega) (by simp at fits; omega),
      ofBigEndian_cons, List.length_cons]
    congr 2
    · omega
    · rw [Nat.pow_succ]; ring

theorem readBigPieces_reads {digits : List UInt8} (lead : ∀ x ∈ digits.head?, x ≠ 0) (short : digits.length ≤ 16) :
    Reads enough low (readBigPieces (digits.length + 1) digits.length (0, 0)) digits
      (digits.length, ofBigEndian digits) := by
  rw [readBigPieces]
  rcases digits with _ | ⟨x, xs⟩
  · exact Reads.pure
  · have whole : min bigPieceSize (x :: xs).length = (x :: xs).length := by
      simp only [bigPieceSize, List.length_cons] at short ⊢; omega
    rw [if_neg (by simp), whole]
    apply Reads.bind_pure Reads.readExact
    dsimp only
    rw [foldlM_significant (x :: xs) 0 0 (fun _ => lead) (by omega)]
    simp only [List.length_cons, Nat.sub_self, Nat.zero_mul, Nat.zero_add]
    rw [readBigPieces, if_pos rfl]

theorem readBigSegments_held {digits : List UInt8} (lead : ∀ x ∈ digits.head?, x ≠ 0) (short : digits.length ≤ 16)
    (g : Nat) : ReadsHeld (1 ≤ g) low (.bytes (some digits.length)) (readBigSegments g 0 (0, 0)) digits
      (digits.length, ofBigEndian digits) := by
  rcases g with _ | f
  · exact ReadsHeld.fail (by omega) fun _ => ⟨_, rfl⟩
  rw [readBigSegments]
  apply ReadsHeld.offset_bind
  intro o
  apply ReadsHeld.pull_bind
  simp only [↓reduceIte]
  exact (readBigPieces_reads lead short).map id

/-- The significant bytes of a 128-bit number: at most sixteen, the first not zero, spelling the
number. -/
theorem significant_digits {n : Nat} (hn : n < 2 ^ 128) :
    let digits := (bigEndian 16 n).dropWhile (· == 0)
    (∀ x ∈ digits.head?, x ≠ 0) ∧ digits.length ≤ 16 ∧ ofBigEndian digits = n := by
  intro digits
  refine ⟨fun x hx => ?_, ?_, ?_⟩
  · have first := List.head?_dropWhile_not (· == (0 : UInt8)) (bigEndian 16 n)
    rw [Option.mem_def.mp hx] at first
    simpa using first
  · simpa using (List.dropWhile_sublist (· == (0 : UInt8)) (l := bigEndian 16 n)).length_le
  · rw [ofBigEndian_dropWhile, ofBigEndian_bigEndian, Nat.mod_eq_of_lt (by simpa using hn)]

theorem natBytes_small {n : Nat} (small : n < 2 ^ 64) : natBytes n = Head.encode (.unsigned n) := by
  rw [natBytes, if_pos (by rw [Nat.pow_eq]; exact small)]

theorem natBytes_big {n : Nat} (big : ¬ n < 2 ^ 64) :
    natBytes n = Head.encode (.tag tagBigPositive) ++
      Head.encode (.bytes (some ((bigEndian 16 n).dropWhile (· == 0)).length)) ++
        (bigEndian 16 n).dropWhile (· == 0) := by
  rw [natBytes, if_neg (by rw [Nat.pow_eq]; exact big)]

theorem readInteger_big {n : Nat} (big : ¬ n < 2 ^ 64) (hn : n < 2 ^ 128) (g : Nat) :
    Reads (2 ≤ g) low (readInteger g none) (natBytes n) (false, n) := by
  rcases g with _ | f
  · exact Reads.fail (by omega) fun _ => ⟨_, rfl⟩
  obtain ⟨lead, short, value⟩ := significant_digits hn
  rw [natBytes_big big, readInteger, List.append_assoc]
  apply Reads.bind (Reads.pull (.tag (by decide)))
  dsimp only
  rw [if_pos (Or.inl rfl)]
  apply Reads.bind (Reads.pull (.bytes (by simp; omega)))
  apply Reads.push
  have reads : ReadsHeld (2 ≤ f + 1) (low + (Head.tag tagBigPositive).encode.length) _ _ _ _ :=
    ((readBigSegments_held lead short f).map fun acc => (decide (tagBigPositive = tagBigNegative), acc.2)).weaken
      (by omega)
  rw [value] at reads
  exact reads

end KeyRelay.Wire
