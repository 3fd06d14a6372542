import CdkSystem.Lib.Separated
import CdkSystem.Proof.Running

/-!
# The hashes of requests

A key's row has the hash of the request that created it. The bytes that are hashed are the user's id
and the normalized codes with NUL characters between them, after a tag when the request is for a
batch. A code has no NUL character, but a user's id may have some, so it can spell the text of
another request up to some of its codes (`KeyedRequest.Forges`); there is no other way in which
different requests are hashed from the same bytes (`KeyedRequest.hashed_eq_iff`).
-/

namespace CdkSystem

open RowLock Separated

/-- A request that may have an idempotency key. -/
inductive KeyedRequest where
  | single (req : RedeemRequest)
  | batch (req : BatchRedeemRequest)

namespace KeyedRequest

/-- The bytes that are hashed for a request, by the handler of its kind. -/
def hashed : KeyedRequest → List UInt8
  | single req => req.trimmed.hashed
  | batch req => req.trimmed.hashed

/-- Whether the request passes the validation of its handler. -/
def accepted : KeyedRequest → Bool
  | single req => (checkInput req.trimmed (normalizeCode req.code)).isNone
  | batch req => (checkBatchInput req.trimmed).isNone

/-- The idempotency key that the request was sent with. -/
def key : KeyedRequest → String
  | single req => req.idempotencyKey
  | batch req => req.idempotencyKey

/-- Whether the request is for a batch. -/
def isBatch : KeyedRequest → Bool
  | single _ => false
  | batch _ => true

/-- The trimmed user id, on which both handlers work. -/
def user : KeyedRequest → String
  | single req => trimSpace req.userID
  | batch req => trimSpace req.userID

/-- The normalized codes, of which a single request has one. -/
def codes : KeyedRequest → List String
  | single req => [normalizeCode req.code]
  | batch req => req.codes.map normalizeCode

/-- The requests are of the same kind, for the same user and the same codes. -/
def Same (a b : KeyedRequest) : Prop :=
  a.isBatch = b.isBatch ∧ a.user = b.user ∧ a.codes = b.codes

/-- The call of the service that serves the request. -/
def call : KeyedRequest → Call
  | single req => .redeem req
  | batch req => .batchRedeem req

/-- The result with which the request is answered for `ErrIdempotencyConflict`. -/
def conflict : KeyedRequest → Result
  | single _ => .redeem (.error .idempotencyConflict)
  | batch _ => .batchRedeem (.error .idempotencyConflict)

/-- The characters before the first code: the user's id, behind the tag of a batch. -/
def front : KeyedRequest → List Char
  | single req => (trimSpace req.userID).toList
  | batch req => "batch\x00".toList ++ (trimSpace req.userID).toList

/-- The codes as lists of characters, which are what stands between the separators. -/
def fields (a : KeyedRequest) : List (List Char) := a.codes.map String.toList

/-- The text of a request: its front and its codes, each after a NUL. -/
def text (a : KeyedRequest) : List Char := joined '\x00' a.front a.fields

/-- The user's id of a request spells the text of another one up to some of its codes, and the
request has the other codes. -/
def Forges (a b : KeyedRequest) : Prop :=
  ∃ spelled, b.codes = spelled ++ a.codes ∧
    a.front = joined '\x00' b.front (spelled.map String.toList) ∧
    (spelled ≠ [] ∨ a.isBatch ≠ b.isBatch)

/-- The call of the request `b`, with a key whose row was created by the request `a`, does not
return anything but a conflict, unless an operation has failed. -/
def Conflicts (a b : KeyedRequest) : Prop :=
  ∀ (ι : Type) [DecidableEq ι] (start : Start ι) (as : List (Action ι Choice)) (s : State ι) (i : ι)
    (row : IdempotencyKey) (r : Result), start.calls i = b.call → b.key ≠ "" →
    start.tables.keys.get? b.key = some row → row.requestHash = start.rt.sha256 a.hashed →
    (start.rt.sha256 a.hashed = start.rt.sha256 b.hashed → a.hashed = b.hashed) →
    start.run as = some s → s.progs i = some (.ret r) → r = b.conflict ∨ s.db.failed i = true

/-- The hashed bytes tell the requests apart, and a key that has been used for the one is refused to
the other. -/
def Separated (a b : KeyedRequest) : Prop :=
  (a.hashed = b.hashed → a.Same b) ∧ (¬ a.Same b → a.Conflicts b)

variable {a b : KeyedRequest}

/-- The hashed bytes are those of the text. -/
theorem hashed_eq (a : KeyedRequest) : a.hashed = encodeRunes a.text := by
  have hnul : ∀ code : String,
      encodeRunes ('\x00' :: code.toList) = 0 :: bytesOfText code := fun code => rfl
  have hcodes : ∀ codes : List String,
      encodeRunes ((codes.map String.toList).flatMap fun field => '\x00' :: field) =
        codes.flatMap fun code => 0 :: bytesOfText code := by
    intro codes
    induction codes with
    | nil => rfl
    | cons code codes ih =>
      rw [List.map_cons, List.flatMap_cons, List.flatMap_cons, encodeRunes_append, ih, hnul]
  unfold text joined fields
  rw [encodeRunes_append, hcodes]
  cases a with
  | single req =>
    simp only [hashed, RedeemRequest.hashed, RedeemRequest.trimmed, front, codes, bytesOfText,
      List.flatMap_cons, List.flatMap_nil, List.append_nil]
  | batch req =>
    simp only [hashed, BatchRedeemRequest.hashed, BatchRedeemRequest.trimmed, front, codes,
      bytesOfText, encodeRunes_append, List.flatMap_map]

/-- Different texts are encoded differently, so the hashed bytes tell them apart. -/
theorem hashed_inj : a.hashed = b.hashed ↔ a.text = b.text := by
  rw [hashed_eq, hashed_eq]
  refine ⟨fun h => ?_, fun h => by rw [h]⟩
  have hrunes := congrArg runes h
  rwa [runes_encodeRunes, runes_encodeRunes] at hrunes

/-- A code has no NUL character, since normalizing keeps letters and digits only. -/
theorem nul_notMem_fields (a : KeyedRequest) : ∀ field ∈ a.fields, '\x00' ∉ field := by
  intro field hfield
  obtain ⟨code, hcode, rfl⟩ := List.mem_map.mp hfield
  cases a with
  | single req =>
    obtain rfl := List.mem_singleton.mp hcode
    exact nul_notMem_normalizeCode _
  | batch req =>
    obtain ⟨raw, -, rfl⟩ := List.mem_map.mp hcode
    exact nul_notMem_normalizeCode raw

/-- The front of requests of one kind is the user's id. -/
theorem front_inj (h : a.isBatch = b.isBatch) : a.front = b.front ↔ a.user = b.user := by
  cases a <;> cases b <;> simp only [isBatch, reduceCtorEq] at h <;>
    simp only [front, user, List.append_cancel_left_eq, String.toList_inj]

/-- The same requests have the same text. -/
theorem Same.text_eq (h : a.Same b) : a.text = b.text := by
  obtain ⟨hkind, huser, hcodes⟩ := h
  rw [text, text, (front_inj hkind).mpr huser, fields, fields, hcodes]

/-- A request that forges another one has its text. -/
theorem Forges.text_eq (h : a.Forges b) : a.text = b.text := by
  obtain ⟨spelled, hcodes, hfront, -⟩ := h
  have hfields : b.fields = spelled.map String.toList ++ a.fields := by
    rw [fields, hcodes, List.map_append]
    rfl
  rw [text, text, hfields, joined_append, hfront]

/-- A request with the text of another one that has no fewer codes is the same, or forges it. -/
theorem same_or_forges (hlen : a.codes.length ≤ b.codes.length) (h : a.text = b.text) :
    a.Same b ∨ a.Forges b := by
  have hlen' : a.fields.length ≤ b.fields.length := by simpa [fields] using hlen
  obtain ⟨hfields, hfront⟩ := (joined_eq_iff a.nul_notMem_fields b.nul_notMem_fields hlen').mp h
  generalize b.fields.length - a.fields.length = n at hfields hfront
  -- The codes of the one are the last codes of the other.
  have hcodes : a.codes = b.codes.drop n := by
    rw [fields, fields, ← List.map_drop] at hfields
    exact List.map_injective_iff.mpr (fun s t hst => String.toList_injective hst) hfields
  have hsplit : b.codes = b.codes.take n ++ a.codes := by rw [hcodes, List.take_append_drop]
  rw [fields, ← List.map_take] at hfront
  by_cases hsame : b.codes.take n = [] ∧ a.isBatch = b.isBatch
  · obtain ⟨hnil, hkind⟩ := hsame
    rw [hnil, List.map_nil, joined_nil] at hfront
    rw [hnil, List.nil_append] at hsplit
    exact Or.inl ⟨hkind, (front_inj hkind).mp hfront, hsplit.symm⟩
  · exact Or.inr ⟨_, hsplit, hfront, not_and_or.mp hsame⟩

/-- Being the same does not depend on the order. -/
theorem Same.symm (h : a.Same b) : b.Same a := ⟨h.1.symm, h.2.1.symm, h.2.2.symm⟩

/-- Requests are hashed from the same bytes exactly if they are the same, or one forges the other.
-/
theorem hashed_eq_iff : a.hashed = b.hashed ↔ a.Same b ∨ a.Forges b ∨ b.Forges a := by
  rw [hashed_inj]
  constructor
  · intro h
    rcases Nat.le_total a.codes.length b.codes.length with hlen | hlen
    · exact (same_or_forges hlen h).imp_right Or.inl
    · exact (same_or_forges hlen h.symm).imp Same.symm Or.inr
  · rintro (h | h | h)
    · exact h.text_eq
    · exact h.text_eq
    · exact h.text_eq.symm

/-- A request that forges another one is not the same. -/
theorem Forges.not_same (h : a.Forges b) : ¬ a.Same b := by
  rintro ⟨hkind, -, hcodes⟩
  obtain ⟨spelled, hsplit, -, hne | hne⟩ := h
  · rw [hcodes] at hsplit
    exact hne (List.append_left_eq_self.mp hsplit.symm)
  · exact hne hkind

/-- The user's id of a request that forges another one has a NUL character. -/
theorem Forges.nul_mem (h : a.Forges b) (ha : a.codes ≠ []) :
    '\x00' ∈ a.user.toList ∨ '\x00' ∈ b.user.toList := by
  obtain ⟨spelled, hcodes, hfront, hne⟩ := h
  -- A single request hashes one code, so nothing of its codes can be spelled by the user's id.
  have hnil : b.isBatch = false → spelled = [] := by
    intro hb
    cases b with
    | single req =>
      obtain ⟨hs, -⟩ | ⟨-, hs⟩ := List.append_eq_singleton_iff.mp hcodes.symm
      · exact hs
      · exact absurd hs ha
    | batch req => simp [isBatch] at hb
  -- Which of the two fronts is the longer one depends on the kinds of the requests.
  cases a with
  | single req =>
    cases b with
    | single req' => exact absurd rfl (hne.resolve_left (not_not_intro (hnil rfl)))
    | batch req' =>
      refine Or.inl ?_
      change '\x00' ∈ (KeyedRequest.single req).front
      rw [hfront]
      simp [joined, front]
  | batch req =>
    cases b with
    | single req' =>
      refine Or.inr ?_
      rw [hnil rfl, List.map_nil, joined_nil] at hfront
      change '\x00' ∈ (KeyedRequest.single req').front
      rw [← hfront]
      simp [front]
    | batch req' =>
      have hspelled := hne.resolve_right (not_not_intro rfl)
      -- Of two batches, the first one spells out at least one code, and a NUL stands before it.
      obtain ⟨code, spelled, rfl⟩ := List.exists_cons_of_ne_nil hspelled
      refine Or.inl ?_
      simp only [front, joined, List.append_assoc, List.append_cancel_left_eq] at hfront
      change '\x00' ∈ (trimSpace req.userID).toList
      rw [hfront]
      simp

/-- A key that was used for a request is refused to another one that is hashed from other bytes. -/
theorem conflicts_of_hashed_ne (hb : b.accepted = true) (h : a.hashed ≠ b.hashed) :
    a.Conflicts b := by
  intro ι _ start as s i row r hcall hkey hrow hhash hsha hrun hp
  have hne : row.requestHash ≠ start.rt.sha256 b.hashed := fun he => h (hsha (hhash.symm.trans he))
  -- The row is there at all times, and its hash stays.
  have hkept : ∀ T row', Past s.db.log s.db.tables T → T.keys.get? b.key = some row' →
      row'.requestHash ≠ start.rt.sha256 b.hashed := by
    intro T row' hT hrow'
    obtain ⟨row'', hrow'', hlater⟩ := ((Start.history hrun).evolves hT).keys _ _ hrow
    -- A row's hash is written once, so the row that the call finds has it as well.
    rw [hrow', Option.some.injEq] at hrow''
    rw [hrow'', hlater]
    exact hne
  have hnow := hkept s.db.tables
  cases b with
  | single req =>
    obtain ⟨r, rfl, hr⟩ := Start.redeem_returned hrun hcall hp
    cases hr with
    | invalid hinput => simp [accepted, hinput] at hb
    | answered hinput ha =>
      cases ha with
      | replayed _ hrow' hhash' => exact absurd hhash' (hnow _ (Or.inl rfl) hrow')
      | undecodable _ hrow' hhash' => exact absurd hhash' (hnow _ (Or.inl rfl) hrow')
      | conflict => exact Or.inl rfl
    | @redeemed e resp hinput he hlog =>
      have hmem : e ∈ s.db.ownLog i := by simp [hlog]
      have hpast : Past s.db.log s.db.tables e.before :=
        Or.inr ⟨e, (List.mem_filter.mp hmem).1, rfl⟩
      obtain ⟨row', hrow', -⟩ := ((Start.history hrun).evolves hpast).keys _ _ hrow
      exact absurd (he.free hkey row' hrow').1 (hkept _ _ hpast hrow')
    | failed hf => exact Or.inr hf.failed
  | batch req =>
    obtain ⟨r, rfl, hr⟩ := Start.batchRedeem_returned hrun hcall hp
    cases hr with
    | invalid hinput => simp [accepted, hinput] at hb
    | answered hinput ha =>
      cases ha with
      | replayed _ hrow' hhash' => exact absurd hhash' (hnow _ (Or.inl rfl) hrow')
      | undecodable _ hrow' hhash' => exact absurd hhash' (hnow _ (Or.inl rfl) hrow')
      | conflict => exact Or.inl rfl
    | done hinput hnokey => exact absurd hnokey hkey
    | stored _ _ _ _ _ hrow' => exact absurd rfl (hnow _ (Or.inl rfl) hrow')
    | failed hf => exact Or.inr hf

/-- A request that was accepted has at least one code. -/
theorem codes_ne_nil (h : a.accepted = true) : a.codes ≠ [] := by
  cases a with
  | single req => exact List.cons_ne_nil _ _
  | batch req =>
    intro hnil
    have hcodes : req.trimmed.codes = [] := List.map_eq_nil_iff.mp hnil
    unfold accepted checkBatchInput at h
    simp only [hcodes, if_true] at h
    split_ifs at h <;> cases h

end KeyedRequest

open KeyedRequest

/-- Two accepted requests whose users' ids have no NUL character do not forge one another. -/
theorem not_forges {a b : KeyedRequest} (ha : a.accepted = true) (hu : '\x00' ∉ a.user.toList)
    (hu' : '\x00' ∉ b.user.toList) : ¬ a.Forges b := by
  intro h
  rcases h.nul_mem (codes_ne_nil ha) with hnul | hnul
  · exact hu hnul
  · exact hu' hnul

/-- Accepted requests are told apart by the bytes that are hashed, and a key that was used for the
one is refused to the other, exactly if neither user's id spells the other request's text up to some
of its codes. -/
theorem hashes_separate_iff {a b : KeyedRequest} (_ha : a.accepted = true)
    (hb : b.accepted = true) :
    a.Separated b ↔ ¬ (a.Forges b ∨ b.Forges a) := by
  constructor
  · rintro ⟨hsep, -⟩ hforges
    have hsame : a.Same b := hsep (hashed_eq_iff.mpr (Or.inr hforges))
    rcases hforges with h | h
    · exact h.not_same hsame
    · exact h.not_same hsame.symm
  · intro hforges
    have hsep : a.hashed = b.hashed → a.Same b := fun h =>
      (hashed_eq_iff.mp h).resolve_right hforges
    exact ⟨hsep, fun hne => conflicts_of_hashed_ne hb fun h => hne (hsep h)⟩

/-- A request for the codes `A` and `B`. -/
def twoCodes : KeyedRequest := .batch ⟨"u", ["A", "B"], "k", ""⟩

/-- A request for the code `B` whose user's id has the other code. -/
def nulUser : KeyedRequest := .batch ⟨"u\x00A", ["B"], "k", ""⟩

/-- A request for the code `B` of a user's id that begins like a batch request. -/
def otherUser : KeyedRequest := .single ⟨"v", "B", "k", ""⟩

/-- The requests of `twoCodes` and `nulUser` are accepted and hashed from the same bytes, but they
are not the same. -/
theorem hashes_separate_forged :
    ¬ ∀ a b : KeyedRequest, a.accepted = true → b.accepted = true → a.hashed = b.hashed →
      a.Same b := by
  intro h
  have hsame := h nulUser twoCodes (by decide) (by decide) (by decide)
  exact absurd hsame.2.1 (by decide)

/-- The requests of `twoCodes` and `otherUser` are told apart. -/
theorem hashes_separate_plain : twoCodes.Separated otherUser :=
  (hashes_separate_iff (a := twoCodes) (b := otherUser) (by decide) (by decide)).mpr <| by
    rintro (h | h)
    · exact not_forges (by decide) (by decide) (by decide) h
    · exact not_forges (by decide) (by decide) (by decide) h

end CdkSystem
