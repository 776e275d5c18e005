import KeyRelay.Wire.Layout
import KeyRelay.Proofs.ReadBack

/-! The messages of the wire read back from their bytes. A message fits the wire when its
identifiers lie in the identifier space, its words in their widths, and its texts and sequences
have fewer than `2 ^ 64` bytes and items; such a message's value holds its type's shape, so its
bytes read back as it and no strict prefix of them is read.
-/

namespace KeyRelay

open Wire Cbor

theorem Ident.space_eq : Ident.space = 2 ^ 128 := by
  rw [Ident.space, Nat.pow_eq]

namespace Wire

@[simp] theorem Fields.names_ofList (fields : List (String × Shape)) :
    (Fields.ofList fields).names = fields.map Prod.fst := by
  induction fields with
  | nil => rfl
  | cons field rest ih =>
    obtain ⟨n, s⟩ := field
    simp [Fields.ofList, Fields.names, ih]

@[simp] theorem Fields.get?_ofList (fields : List (String × Shape)) (i : Nat) :
    (Fields.ofList fields).get? i = fields[i]? := by
  induction fields generalizing i with
  | nil => rfl
  | cons field rest ih =>
    obtain ⟨n, s⟩ := field
    cases i with
    | zero => rfl
    | succ i => exact ih i

section Literal

variable {depth : Nat} {fields : List (String × Shape)} {entries : List (String × Value)}

/-- Field names a record written from a literal list can carry: distinct, short enough to be
read as keys, and few enough to be counted. -/
abbrev Plain (fields : List (String × Shape)) : Prop :=
  (fields.map Prod.fst).Nodup ∧
    (∀ n ∈ fields.map Prod.fst, (n.toList.flatMap String.utf8EncodeChar).length ≤ pieceSize) ∧
    fields.length < 2 ^ 64

/-- The entries of a record written from a list of fields, under their names and in order. -/
theorem Fields.named_ofList (plain : Plain fields) (names : entries.map Prod.fst = fields.map Prod.fst) :
    (Fields.ofList fields).Named entries where
  names := by rw [Fields.names_ofList, names]
  distinct := by rw [Fields.names_ofList]; exact plain.1
  short := by
    rw [Fields.names_ofList]
    intro n mem
    rw [Utf8.encode_eq]
    exact plain.2.1 n mem
  count := by
    have same := congrArg List.length names
    rw [List.length_map, List.length_map] at same
    have few := plain.2.2
    omega

theorem Fields.each_ofList (each : List.Forall₂ (fun f e => Holds depth f.2 e.2) fields entries) :
    ∀ i n s v, (Fields.ofList fields).get? i = some (n, s) → entries[i]? = some (n, v) → Holds depth s v := by
  intro i n s v get entry
  rw [Fields.get?_ofList] at get
  obtain ⟨inFields, atField⟩ := List.getElem?_eq_some_iff.mp get
  obtain ⟨inEntries, atEntry⟩ := List.getElem?_eq_some_iff.mp entry
  have holds := each.get inFields inEntries
  simp only [List.get_eq_getElem, atField, atEntry] at holds
  exact holds

theorem Holds.record_ofList {name : String} (plain : Plain fields) (names : entries.map Prod.fst = fields.map Prod.fst)
    (each : List.Forall₂ (fun f e => Holds depth f.2 e.2) fields entries) :
    Holds (depth + 1) (.record name (.ofList fields)) (.record entries) :=
  .record (Fields.named_ofList plain names) (Fields.each_ofList each)

theorem Holds.structVariant_ofList {enum name : String} {variants : Variants}
    (found : variants.find? name = Option.some (.struct (.ofList fields)))
    (short : (name.toList.flatMap String.utf8EncodeChar).length ≤ pieceSize) (plain : Plain fields)
    (names : entries.map Prod.fst = fields.map Prod.fst)
    (each : List.Forall₂ (fun f e => Holds depth f.2 e.2) fields entries) :
    Holds (depth + 2) (.enum enum variants) (.structVariant name entries) :=
  .structVariant found (by rwa [Utf8.encode_eq]) (Fields.named_ofList plain names) (Fields.each_ofList each)

end Literal

section Leaves

variable {depth : Nat}

theorem Holds.ident {i : Ident} (fits : i.val < Ident.space) : Holds depth .wide (ident i) :=
  .wide (by rwa [← Ident.space_eq])

theorem Holds.bytes {b : List UInt8} (count : b.length < 2 ^ 64) : Holds (depth + 1) byteSeq (bytes b) := by
  apply Holds.seq (by simpa using count)
  intro v mem
  obtain ⟨x, -, rfl⟩ := List.mem_map.mp mem
  have byte := x.toNat_lt
  exact .word (by simpa using byte) (by omega)

theorem Holds.seq_map {α : Type} {s : Shape} {f : α → Value} {xs : List α} (count : xs.length < 2 ^ 64)
    (each : ∀ x ∈ xs, Holds depth s (f x)) : Holds (depth + 1) (.seq s) (.seq (xs.map f)) := by
  apply Holds.seq (by simpa using count)
  intro v mem
  obtain ⟨x, listed, rfl⟩ := List.mem_map.mp mem
  exact each x listed

theorem Holds.opt {α : Type} {s : Shape} {f : α → Value} {o : Option α} (present : ∀ a ∈ o, f a ≠ .null)
    (each : ∀ a ∈ o, Holds depth s (f a)) : Holds depth (.option s) (opt f o) := by
  cases o with
  | none => exact .null depth s
  | some a => exact .some (present a rfl) (each a rfl)

end Leaves

end Wire

/-! ### What a message carries -/

structure Span.Fits (s : Span) : Prop where
  block : s.block.val < Ident.space
  start : s.start < 2 ^ 64
  stop : s.stop < 2 ^ 64

structure KeyRow.Fits (r : KeyRow) : Prop where
  keyId : r.keyId.val < Ident.space
  ksid : r.ksid.val < Ident.space
  link : r.link.val < Ident.space
  spanCount : r.spans.length < 2 ^ 64
  spans : ∀ s ∈ r.spans, s.Fits
  createdAt : r.createdAt < 2 ^ 64

structure Qos.Fits (q : Qos) : Prop where
  keyChunkSize : q.keyChunkSize < 2 ^ 32
  requestIntervalMs : q.requestIntervalMs < 2 ^ 64

structure SessionRecord.Fits (r : SessionRecord) : Prop where
  ksid : r.ksid.val < Ident.space
  src : r.src.val < Ident.space
  dst : r.dst.val < Ident.space
  kmeSrc : r.kmeSrc.val < Ident.space
  kmeDst : r.kmeDst.val < Ident.space
  qos : r.qos.Fits
  hopCount : r.path.length < 2 ^ 64
  path : ∀ k ∈ r.path, k.val < Ident.space
  createdAt : r.createdAt < 2 ^ 64

structure KeyContainer.Fits (k : KeyContainer) : Prop where
  keyId : k.keyId.val < Ident.space
  key : (Utf8.encode k.key).length < 2 ^ 64

structure StatusReport.Fits (s : StatusReport) : Prop where
  ksid : s.ksid.val < Ident.space
  src : s.src.val < Ident.space
  dst : s.dst.val < Ident.space
  keySize : s.keySize < 2 ^ 32
  storedKeyCount : s.storedKeyCount < 2 ^ 64
  maxKeyCount : s.maxKeyCount < 2 ^ 64
  maxKeyPerRequest : s.maxKeyPerRequest < 2 ^ 32
  maxKeySize : s.maxKeySize < 2 ^ 32
  minKeySize : s.minKeySize < 2 ^ 32
  maxSaeIdCount : s.maxSaeIdCount < 2 ^ 32

structure ErrorReply.Fits (e : ErrorReply) : Prop where
  message : (Utf8.encode e.message).length < 2 ^ 64

def Registration.Fits (r : Registration) : Prop := ∀ ksid, r = .registered ksid → ksid.val < Ident.space

inductive KmeRequest.Fits : KmeRequest → Prop
  | deliverBlock {link block : Ident} {timestamp : Nat} {bytes : List UInt8} :
      link.val < Ident.space → block.val < Ident.space → timestamp < 2 ^ 64 → bytes.length < 2 ^ 64 →
      Fits (.deliverBlock link block timestamp bytes)
  | openSession {src dst : Ident} {qos : Qos} {master : Bool} :
      src.val < Ident.space → dst.val < Ident.space → qos.Fits → Fits (.openSession src dst qos master)
  | encKeys {src dst : Ident} {number : Nat} {size : Option Nat} :
      src.val < Ident.space → dst.val < Ident.space → number < 2 ^ 32 → (∀ n ∈ size, n < 2 ^ 32) →
      Fits (.encKeys src dst number size)
  | decKeys {src dst : Ident} {keys : List Ident} :
      src.val < Ident.space → dst.val < Ident.space → keys.length < 2 ^ 64 → (∀ k ∈ keys, k.val < Ident.space) →
      Fits (.decKeys src dst keys)
  | status {src dst : Ident} : src.val < Ident.space → dst.val < Ident.space → Fits (.status src dst)
  | closeSession {ksid : Ident} {origin : Option Ident} :
      ksid.val < Ident.space → (∀ k ∈ origin, k.val < Ident.space) → Fits (.closeSession ksid origin)
  | syncKeys {link : Ident} {rows : List KeyRow} {consumed : List Span} :
      link.val < Ident.space → rows.length < 2 ^ 64 → (∀ r ∈ rows, r.Fits) → consumed.length < 2 ^ 64 →
      (∀ s ∈ consumed, s.Fits) → Fits (.syncKeys link rows consumed)
  | relayForward {ksid keyId otkId : Ident} {cipher : String} {size : Nat} :
      ksid.val < Ident.space → keyId.val < Ident.space → otkId.val < Ident.space →
      (Utf8.encode cipher).length < 2 ^ 64 → size < 2 ^ 32 → Fits (.relayForward ksid keyId otkId cipher size)
  | assignSession {record : SessionRecord} : record.Fits → Fits (.assignSession record)
  | linkConfirmed {link companion : Ident} {address : String} :
      link.val < Ident.space → companion.val < Ident.space → (Utf8.encode address).length < 2 ^ 64 →
      Fits (.linkConfirmed link companion address)

inductive KmeResponse.Fits : KmeResponse → Prop
  | ack : Fits .ack
  | session {r : Registration} : r.Fits → Fits (.session r)
  | keys {keys : List KeyContainer} : keys.length < 2 ^ 64 → (∀ k ∈ keys, k.Fits) → Fits (.keys keys)
  | status {report : StatusReport} : report.Fits → Fits (.status report)
  | error {reply : ErrorReply} : reply.Fits → Fits (.error reply)

inductive ControllerRequest.Fits : ControllerRequest Float → Prop
  | registerKme {address : String} : (Utf8.encode address).length < 2 ^ 64 → Fits (.registerKme address)
  | newLink {link kme : Ident} {rate : Float} {ttlSecs : Nat} :
      link.val < Ident.space → kme.val < Ident.space → ttlSecs < 2 ^ 64 → Fits (.newLink link kme rate ttlSecs)
  | updateLink {link : Ident} {rate : Float} : link.val < Ident.space → Fits (.updateLink link rate)
  | registerApp {src dst kme : Ident} {qos : Qos} {master : Bool} :
      src.val < Ident.space → dst.val < Ident.space → kme.val < Ident.space → qos.Fits →
      Fits (.registerApp src dst kme qos master)
  | closeConnection {ksid : Ident} : ksid.val < Ident.space → Fits (.closeConnection ksid)

inductive ControllerResponse.Fits : ControllerResponse → Prop
  | ack : Fits .ack
  | kmeRegistered {id : Ident} : id.val < Ident.space → Fits (.kmeRegistered id)
  | session {r : Registration} : r.Fits → Fits (.session r)
  | error {reply : ErrorReply} : reply.Fits → Fits (.error reply)

/-! ### The values of fitting messages hold their shapes -/

section Shapes

variable (depth : Nat)

theorem Span.holds {s : Span} (fits : s.Fits) : Holds (depth + 1) Layout.span s.toValue :=
  Holds.record_ofList (by decide) rfl
    (.cons (.ident fits.block) (.cons (.machineWord (by have := fits.start; omega))
      (.cons (.machineWord (by have := fits.stop; omega)) .nil)))

theorem KeyRow.holds {r : KeyRow} (fits : r.Fits) : Holds (depth + 3) Layout.keyRow r.toValue :=
  Holds.record_ofList (by decide) rfl
    (.cons (.ident fits.keyId) (.cons (.ident fits.ksid) (.cons (.ident fits.link)
      (.cons (Holds.seq_map fits.spanCount fun s mem => Span.holds depth (fits.spans s mem))
      (.cons (.bool _ r.relay) (.cons (.word fits.createdAt fits.createdAt) .nil))))))

theorem Qos.holds {q : Qos} (fits : q.Fits) : Holds (depth + 1) Layout.qos q.toValue :=
  Holds.record_ofList (by decide) rfl
    (.cons (.word fits.keyChunkSize (by have := fits.keyChunkSize; omega))
      (.cons (.word fits.requestIntervalMs fits.requestIntervalMs) .nil))

theorem SessionRecord.holds {r : SessionRecord} (fits : r.Fits) : Holds (depth + 2) Layout.sessionRecord r.toValue :=
  Holds.record_ofList (by decide) rfl
    (.cons (.ident fits.ksid) (.cons (.ident fits.src) (.cons (.ident fits.dst)
      (.cons (.ident fits.kmeSrc) (.cons (.ident fits.kmeDst) (.cons (Qos.holds depth fits.qos)
      (.cons (Holds.seq_map fits.hopCount fun k mem => .ident (fits.path k mem))
      (.cons (.word fits.createdAt fits.createdAt) .nil))))))))

theorem KeyContainer.holds {k : KeyContainer} (fits : k.Fits) : Holds (depth + 1) Layout.keyContainer k.toValue :=
  Holds.record_ofList (by decide) rfl (.cons (.ident fits.keyId) (.cons (.text fits.key) .nil))

theorem StatusReport.holds {s : StatusReport} (fits : s.Fits) : Holds (depth + 1) Layout.statusReport s.toValue :=
  Holds.record_ofList (by decide) rfl
    (.cons (.ident fits.ksid) (.cons (.ident fits.src) (.cons (.ident fits.dst)
      (.cons (.word fits.keySize (by have := fits.keySize; omega))
      (.cons (.machineWord fits.storedKeyCount) (.cons (.machineWord fits.maxKeyCount)
      (.cons (.word fits.maxKeyPerRequest (by have := fits.maxKeyPerRequest; omega))
      (.cons (.word fits.maxKeySize (by have := fits.maxKeySize; omega))
      (.cons (.word fits.minKeySize (by have := fits.minKeySize; omega))
      (.cons (.word fits.maxSaeIdCount (by have := fits.maxSaeIdCount; omega)) .nil))))))))))

theorem FaultKind.holds (k : FaultKind) : Holds (depth + 1) Layout.errorKind (.unitVariant k.name) := by
  cases k <;> exact .unitVariant rfl (by rw [Utf8.encode_eq]; decide)

theorem ErrorReply.holds {e : ErrorReply} (fits : e.Fits) : Holds (depth + 2) Layout.errorReply e.toValue :=
  Holds.record_ofList (by decide) rfl (.cons (FaultKind.holds depth e.kind) (.cons (.text fits.message) .nil))

theorem Registration.holds {r : Registration} (fits : r.Fits) : Holds (depth + 1) Layout.registration r.toValue := by
  cases r with
  | registered ksid => exact .newtypeVariant rfl (by rw [Utf8.encode_eq]; decide) (.ident (fits ksid rfl))
  | pending => exact .unitVariant rfl (by rw [Utf8.encode_eq]; decide)

theorem KmeRequest.holds {m : KmeRequest} (fits : m.Fits) : Holds (depth + 6) Layout.kmeRequest m.toValue := by
  cases fits with
  | deliverBlock link block timestamp bytes =>
    exact Holds.structVariant_ofList rfl (by decide) (by decide) rfl
      (.cons (.ident link) (.cons (.ident block) (.cons (.word timestamp timestamp) (.cons (Holds.bytes bytes) .nil))))
  | openSession src dst qos =>
    exact Holds.structVariant_ofList rfl (by decide) (by decide) rfl
      (.cons (.ident src) (.cons (.ident dst) (.cons (Qos.holds (depth + 3) qos) (.cons (.bool _ _) .nil))))
  | encKeys src dst number size =>
    exact Holds.structVariant_ofList rfl (by decide) (by decide) rfl
      (.cons (.ident src) (.cons (.ident dst) (.cons (.word number (by omega))
        (.cons (Holds.opt (fun _ _ => by simp) fun n mem => .word (size n mem) (by have := size n mem; omega)) .nil))))
  | decKeys src dst count keys =>
    exact Holds.structVariant_ofList rfl (by decide) (by decide) rfl
      (.cons (.ident src) (.cons (.ident dst) (.cons (Holds.seq_map count fun k mem => .ident (keys k mem)) .nil)))
  | status src dst =>
    exact Holds.structVariant_ofList rfl (by decide) (by decide) rfl (.cons (.ident src) (.cons (.ident dst) .nil))
  | closeSession ksid origin =>
    exact Holds.structVariant_ofList rfl (by decide) (by decide) rfl
      (.cons (.ident ksid) (.cons (Holds.opt (fun _ _ => by simp [ident]) fun k mem => .ident (origin k mem)) .nil))
  | syncKeys link rowCount rows spanCount spans =>
    exact Holds.structVariant_ofList rfl (by decide) (by decide) rfl
      (.cons (.ident link) (.cons (Holds.seq_map rowCount fun r mem => KeyRow.holds depth (rows r mem))
        (.cons (Holds.seq_map spanCount fun s mem => Span.holds (depth + 2) (spans s mem)) .nil)))
  | relayForward ksid keyId otkId cipher size =>
    exact Holds.structVariant_ofList rfl (by decide) (by decide) rfl
      (.cons (.ident ksid) (.cons (.ident keyId) (.cons (.ident otkId) (.cons (.text cipher)
        (.cons (.word size (by omega)) .nil)))))
  | assignSession record =>
    exact Holds.structVariant_ofList rfl (by decide) (by decide) rfl (.cons (SessionRecord.holds (depth + 2) record) .nil)
  | linkConfirmed link companion address =>
    exact Holds.structVariant_ofList rfl (by decide) (by decide) rfl
      (.cons (.ident link) (.cons (.ident companion) (.cons (.text address) .nil)))

theorem KmeResponse.holds {m : KmeResponse} (fits : m.Fits) : Holds (depth + 3) Layout.kmeResponse m.toValue := by
  cases fits with
  | ack => exact .unitVariant rfl (by rw [Utf8.encode_eq]; decide)
  | session r => exact .newtypeVariant rfl (by rw [Utf8.encode_eq]; decide) (Registration.holds (depth + 1) r)
  | keys count keys =>
    exact .newtypeVariant rfl (by rw [Utf8.encode_eq]; decide)
      (Holds.seq_map count fun k mem => KeyContainer.holds depth (keys k mem))
  | status report => exact .newtypeVariant rfl (by rw [Utf8.encode_eq]; decide) (StatusReport.holds (depth + 1) report)
  | error reply => exact .newtypeVariant rfl (by rw [Utf8.encode_eq]; decide) (ErrorReply.holds depth reply)

theorem ControllerRequest.holds {m : ControllerRequest Float} (fits : m.Fits) :
    Holds (depth + 3) Layout.controllerRequest m.toValue := by
  cases fits with
  | registerKme address => exact Holds.structVariant_ofList rfl (by decide) (by decide) rfl (.cons (.text address) .nil)
  | newLink link kme ttl =>
    exact Holds.structVariant_ofList rfl (by decide) (by decide) rfl
      (.cons (.ident link) (.cons (.ident kme) (.cons (.real _ _) (.cons (.word ttl ttl) .nil))))
  | updateLink link =>
    exact Holds.structVariant_ofList rfl (by decide) (by decide) rfl (.cons (.ident link) (.cons (.real _ _) .nil))
  | registerApp src dst kme qos =>
    exact Holds.structVariant_ofList rfl (by decide) (by decide) rfl
      (.cons (.ident src) (.cons (.ident dst) (.cons (.ident kme) (.cons (Qos.holds depth qos) (.cons (.bool _ _) .nil)))))
  | closeConnection ksid => exact Holds.structVariant_ofList rfl (by decide) (by decide) rfl (.cons (.ident ksid) .nil)

theorem ControllerResponse.holds {m : ControllerResponse} (fits : m.Fits) :
    Holds (depth + 3) Layout.controllerResponse m.toValue := by
  cases fits with
  | ack => exact .unitVariant rfl (by rw [Utf8.encode_eq]; decide)
  | kmeRegistered id => exact .newtypeVariant rfl (by rw [Utf8.encode_eq]; decide) (.ident id)
  | session r => exact .newtypeVariant rfl (by rw [Utf8.encode_eq]; decide) (Registration.holds (depth + 1) r)
  | error reply => exact .newtypeVariant rfl (by rw [Utf8.encode_eq]; decide) (ErrorReply.holds depth reply)

end Shapes

/-- Every message that fits the wire is read back from its bytes as itself, and no strict prefix
of its bytes is read, for the requests and responses of nodes and of the controller alike. -/
theorem messages_round_trip :
    (∀ m : KmeRequest, m.Fits → RoundTrips Layout.kmeRequest m.toValue) ∧
    (∀ m : KmeResponse, m.Fits → RoundTrips Layout.kmeResponse m.toValue) ∧
    (∀ m : ControllerRequest Float, m.Fits → RoundTrips Layout.controllerRequest m.toValue) ∧
    (∀ m : ControllerResponse, m.Fits → RoundTrips Layout.controllerResponse m.toValue) :=
  ⟨fun _ fits => readValue_encode (KmeRequest.holds 250 fits) (by decide),
    fun _ fits => readValue_encode (KmeResponse.holds 253 fits) (by decide),
    fun _ fits => readValue_encode (ControllerRequest.holds 253 fits) (by decide),
    fun _ fits => readValue_encode (ControllerResponse.holds 253 fits) (by decide)⟩

theorem messages_round_trip_at_the_last_id :
    RoundTrips Layout.kmeRequest (KmeRequest.closeSession ⟨Ident.space - 1⟩ (some ⟨Ident.space - 1⟩)).toValue ∧
    RoundTrips Layout.kmeResponse KmeResponse.ack.toValue ∧
    RoundTrips Layout.controllerRequest (ControllerRequest.closeConnection ⟨Ident.space - 1⟩ : ControllerRequest Float).toValue ∧
    RoundTrips Layout.controllerResponse (ControllerResponse.kmeRegistered ⟨Ident.space - 1⟩).toValue :=
  ⟨messages_round_trip.1 _ (.closeSession (by decide) fun k mem => by cases mem; decide),
    messages_round_trip.2.1 _ .ack,
    messages_round_trip.2.2.1 _ (.closeConnection (by decide)),
    messages_round_trip.2.2.2 _ (.kmeRegistered (by decide))⟩

end KeyRelay
