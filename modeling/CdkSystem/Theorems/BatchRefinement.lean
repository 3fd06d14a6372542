import CdkSystem.Lib.Alone
import CdkSystem.Proof.Closed
import CdkSystem.Theorems.RedeemEffects

/-!
# A batch is its codes one after the other

Without an idempotency key `BatchRedeem` does what calls of `Redeem` for the first occurrences of
its codes do when they are made one after the other, and nothing else (`batch_refines_singles`).

`Runs` says what a function can return and which database it can leave when it runs alone, and
`RedeemsInOrder` and `FailsInOrder` say the same of a list of redemptions that are made one after
the other. The induction is on the codes that are left, with the set of the codes that were seen
before: a fresh code makes one more redemption, and any other one adds only its message to the items
(`redeemCodes_runs`). The response is put together in the loop, so at the end it is a fold over the
items.
-/

namespace CdkSystem

open RowLock

/-! ## Functions that run alone -/

namespace Go

variable {α β : Type} {x : Go α} {d d' : Database Unit}

/-- A function runs alone from a state of the database, and returns a result or an error. -/
def Runs (x : Go α) (d : Database Unit) (r : Except GoError α) (d' : Database Unit) : Prop :=
  RunsAlone postgres x.run d r d'

/-- One function runs after another one, unless that returns an error. -/
theorem runs_bind {f : α → Go β} {r : Except GoError β} : (x >>= f).Runs d r d' ↔
    (∃ a d₁, x.Runs d (.ok a) d₁ ∧ (f a).Runs d₁ r d') ∨
      ∃ e, x.Runs d (.error e) d' ∧ r = .error e := by
  unfold Runs
  rw [ExceptT.run_bind, runsAlone_bind]
  constructor
  · rintro ⟨ra, d₁, hx, hf⟩
    cases ra with
    | ok a => exact Or.inl ⟨a, d₁, hx, hf⟩
    | error e =>
      obtain ⟨rfl, n, rfl⟩ := runsAlone_ret.mp hf
      exact Or.inr ⟨e, hx.later n, rfl⟩
  · rintro (⟨a, d₁, hx, hf⟩ | ⟨e, hx, rfl⟩)
    · exact ⟨.ok a, d₁, hx, hf⟩
    · exact ⟨.error e, d', hx, .ret⟩

/-- A returned result only lets time pass. -/
theorem runs_pure {a : α} {r : Except GoError α} : (pure a : Go α).Runs d r d' ↔
    r = .ok a ∧ ∃ n : ℕ, d' = { d with clock := d.clock + n } :=
  runsAlone_ret

/-- The context of an error changes nothing else. -/
theorem runs_withContext {context : String} {r : Except GoError α} :
    (withContext context x).Runs d r d' ↔
      ∃ r', x.Runs d r' d' ∧ r = r'.mapError (.wrap context) :=
  runsAlone_map

end Go

/-- A call runs alone from a state of the database, returns a result and leaves another state. -/
def CallRuns (rt : Runtime) (call : Call) (d : Database Unit) (r : Result) (d' : Database Unit) :
    Prop :=
  ∃ as s, (Sys.alone (callProgram rt call) d).run postgres as = some s ∧
    s.progs () = some (.ret r) ∧ s.db = d'

variable {rt : Runtime} {req : BatchRedeemRequest} {d d' d₁ : Database Unit}

/-- A call of `Redeem` runs as the function does. -/
theorem callRuns_redeem {req : RedeemRequest} {r : Except GoError RedeemResponse} :
    CallRuns rt (.redeem req) d (.redeem r) d' ↔ (redeem rt req).Runs d r d' := by
  unfold CallRuns
  rw [← runsAlone_iff_run, callProgram, runsAlone_map]
  constructor
  · rintro ⟨r', h, heq⟩
    obtain rfl := Result.redeem.inj heq
    exact h
  · exact fun h => ⟨r, h, rfl⟩

/-- A call of `BatchRedeem` runs as the function does. -/
theorem callRuns_batchRedeem {r : Except GoError BatchRedeemResponse} :
    CallRuns rt (.batchRedeem req) d (.batchRedeem r) d' ↔ (batchRedeem rt req).Runs d r d' := by
  unfold CallRuns
  rw [← runsAlone_iff_run, callProgram, runsAlone_map]
  constructor
  · rintro ⟨r', h, heq⟩
    obtain rfl := Result.batchRedeem.inj heq
    exact h
  · exact fun h => ⟨r, h, rfl⟩

/-! ## Codes one after the other -/

/-- Whether a code behind others is redeemed: it is neither empty nor too long, and none of the
others is the same code. -/
def FreshCode (before : List String) (code : String) : Prop :=
  normalizeCode code ≠ "" ∧ byteLength (normalizeCode code) ≤ maxCodeLength ∧
    normalizeCode code ∉ before.map normalizeCode

instance (before : List String) (code : String) : Decidable (FreshCode before code) :=
  inferInstanceAs (Decidable (_ ∧ _ ∧ _))

/-- The codes that are redeemed: those that are valid and were not there before. -/
def freshCodes : List String → List String → List String
  | _, [] => []
  | before, code :: codes =>
    if FreshCode before code then code :: freshCodes (before ++ [code]) codes
    else freshCodes (before ++ [code]) codes

/-- What is said of a code that is not redeemed. -/
def skipMessage (code : String) : String :=
  if normalizeCode code = "" then "兑换码不能为空"
  else if maxCodeLength < byteLength (normalizeCode code) then "兑换码过长"
  else "兑换码重复，已跳过"

/-- The items of the codes, given the responses for those that are redeemed. -/
def expectedItems : List String → List String → List RedeemResponse → List BatchRedeemItem
  | _, [], _ => []
  | before, code :: codes, resps =>
    if FreshCode before code then
      match resps with
      | [] => []
      | resp :: resps => itemOf code resp :: expectedItems (before ++ [code]) codes resps
    else skippedItem code (skipMessage code) :: expectedItems (before ++ [code]) codes resps

/-- Calls of `Redeem` for some codes that are made one after the other, each of which returns a
response. -/
inductive RedeemsInOrder (rt : Runtime) (req : BatchRedeemRequest) :
    List String → Database Unit → List RedeemResponse → Database Unit → Prop
  /-- Behind the last code time may pass. -/
  | nil {d : Database Unit} (n : ℕ) : RedeemsInOrder rt req [] d [] { d with clock := d.clock + n }
  /-- A code and the codes behind it. -/
  | cons {code codes resp resps} {d d₁ d' : Database Unit}
      (h : CallRuns rt (.redeem (req.item code)) d (.redeem (.ok resp)) d₁)
      (hrest : RedeemsInOrder rt req codes d₁ resps d') :
      RedeemsInOrder rt req (code :: codes) d (resp :: resps) d'

/-- Calls of `Redeem` for some codes that are made one after the other until one of them returns an
error. -/
def FailsInOrder (rt : Runtime) (req : BatchRedeemRequest) (codes : List String)
    (d : Database Unit) (err : GoError) (d' : Database Unit) : Prop :=
  ∃ done code rest resps d₁ cause, codes = done ++ code :: rest ∧
    RedeemsInOrder rt req done d resps d₁ ∧
      CallRuns rt (.redeem (req.item code)) d₁ (.redeem (.error cause)) d' ∧
        err = .wrap ("redeem batch code \"" ++ normalizeCode code ++ "\"") cause

/-- The codes that have been seen are those of the codes before that were redeemed. -/
def SeenBefore (seen before : List String) : Prop :=
  ∀ c, c ∈ seen ↔ c ∈ before.map normalizeCode ∧ c ≠ "" ∧ byteLength c ≤ maxCodeLength

variable {seen before codes : List String} {code : String}

/-- A fresh code has no error, so `Redeem` is called for it. -/
theorem itemError_of_fresh (hseen : SeenBefore seen before) (h : FreshCode before code) :
    itemError seen (normalizeCode code) = none := by
  have hnew : normalizeCode code ∉ seen := fun hmem => h.2.2 ((hseen _).mp hmem).1
  rw [itemError, if_neg h.1, if_neg (not_lt.mpr h.2.1), if_neg hnew]

/-- Another code has the error that is said of it. -/
theorem itemError_of_not_fresh (hseen : SeenBefore seen before) (h : ¬FreshCode before code) :
    itemError seen (normalizeCode code) = some (skipMessage code) := by
  unfold itemError skipMessage
  split_ifs with hempty hlong hmem
  · rfl
  · rfl
  · rfl
  · have hbefore : normalizeCode code ∉ before.map normalizeCode := fun hin =>
      hmem ((hseen _).mpr ⟨hin, hempty, not_lt.mp hlong⟩)
    exact absurd ⟨hempty, not_lt.mp hlong, hbefore⟩ h

/-- A fresh code has then been seen. -/
theorem SeenBefore.fresh (hseen : SeenBefore seen before) (h : FreshCode before code) :
    SeenBefore (normalizeCode code :: seen) (before ++ [code]) := by
  intro c
  rw [List.mem_cons, hseen c, List.map_append, List.mem_append, List.map_singleton,
    List.mem_singleton]
  constructor
  · rintro (rfl | ⟨hin, hc⟩)
    · exact ⟨Or.inr rfl, h.1, h.2.1⟩
    · exact ⟨Or.inl hin, hc⟩
  · rintro ⟨hin | rfl, hc⟩
    · exact Or.inr ⟨hin, hc⟩
    · exact Or.inl rfl

/-- Another code changes nothing about which codes were seen before. -/
theorem SeenBefore.skipped (hseen : SeenBefore seen before) (h : ¬FreshCode before code) :
    SeenBefore seen (before ++ [code]) := by
  intro c
  rw [hseen c, List.map_append, List.mem_append, List.map_singleton, List.mem_singleton]
  constructor
  · rintro ⟨hin, hc⟩
    exact ⟨Or.inl hin, hc⟩
  · rintro ⟨hin | rfl, hc⟩
    · exact ⟨hin, hc⟩
    · refine ⟨?_, hc⟩
      by_contra hnot
      exact h ⟨hc.1, hc.2, hnot⟩

/-- The calls for no codes only let time pass. -/
theorem redeemsInOrder_nil {resps : List RedeemResponse} :
    RedeemsInOrder rt req [] d resps d' ↔
      resps = [] ∧ ∃ n : ℕ, d' = { d with clock := d.clock + n } := by
  constructor
  · intro h
    cases h with
    | nil n => exact ⟨rfl, n, rfl⟩
  · rintro ⟨rfl, n, rfl⟩
    exact .nil n

/-- The calls for some codes are the call for the first one and those for the others. -/
theorem redeemsInOrder_cons {resps : List RedeemResponse} :
    RedeemsInOrder rt req (code :: codes) d resps d' ↔ ∃ resp resps' d₁, resps = resp :: resps' ∧
      (redeem rt (req.item code)).Runs d (.ok resp) d₁ ∧
        RedeemsInOrder rt req codes d₁ resps' d' := by
  constructor
  · intro h
    cases h with
    | cons h hrest => exact ⟨_, _, _, rfl, callRuns_redeem.mp h, hrest⟩
  · rintro ⟨resp, resps', d₁, rfl, h, hrest⟩
    exact .cons (callRuns_redeem.mpr h) hrest

/-- No call fails if there is none. -/
theorem not_failsInOrder_nil {err : GoError} : ¬FailsInOrder rt req [] d err d' := by
  rintro ⟨done, code, rest, resps, d₁, cause, h, -⟩
  cases done <;> cases h

/-- The first call fails, or one behind it. -/
theorem failsInOrder_cons {err : GoError} :
    FailsInOrder rt req (code :: codes) d err d' ↔
      (∃ cause, (redeem rt (req.item code)).Runs d (.error cause) d' ∧
        err = .wrap ("redeem batch code \"" ++ normalizeCode code ++ "\"") cause) ∨
      ∃ resp d₁, (redeem rt (req.item code)).Runs d (.ok resp) d₁ ∧
        FailsInOrder rt req codes d₁ err d' := by
  constructor
  · rintro ⟨done, code', rest, resps, d₁, cause, hcodes, hdone, hfail, rfl⟩
    cases done with
    | nil =>
      obtain ⟨rfl, rfl⟩ := List.cons.inj hcodes
      obtain ⟨-, n, rfl⟩ := redeemsInOrder_nil.mp hdone
      exact Or.inl ⟨cause, .tick n (callRuns_redeem.mp hfail), rfl⟩
    | cons c done =>
      obtain ⟨rfl, rfl⟩ := List.cons.inj hcodes
      obtain ⟨resp, resps', d₂, -, hfirst, hrest⟩ := redeemsInOrder_cons.mp hdone
      exact Or.inr ⟨resp, d₂, hfirst, done, code', rest, resps', d₁, cause, rfl, hrest, hfail, rfl⟩
  · rintro (⟨cause, h, rfl⟩ |
      ⟨resp, d₁, h, done, code', rest, resps, d₂, cause, rfl, hdone, hfail, rfl⟩)
    · refine ⟨[], code, codes, [], d, cause, rfl, ?_, callRuns_redeem.mpr h, rfl⟩
      exact redeemsInOrder_nil.mpr ⟨rfl, 0, by simp⟩
    · exact ⟨code :: done, code', rest, resp :: resps, d₂, cause, rfl,
        redeemsInOrder_cons.mpr ⟨resp, resps, d₁, rfl, h, hdone⟩, hfail, rfl⟩

/-- A fresh code is redeemed, and its item is made of the response. -/
theorem redeemItem_fresh (hseen : SeenBefore seen before) (h : FreshCode before code)
    {r : Except GoError (List String × BatchRedeemItem)} :
    (redeemItem rt req seen code).Runs d r d' ↔
      (∃ resp, (redeem rt (req.item code)).Runs d (.ok resp) d' ∧
        r = .ok (normalizeCode code :: seen, itemOf code resp)) ∨
      ∃ cause, (redeem rt (req.item code)).Runs d (.error cause) d' ∧
        r = .error (.wrap ("redeem batch code \"" ++ normalizeCode code ++ "\"") cause) := by
  unfold redeemItem
  rw [itemError_of_fresh hseen h]
  generalize redeem rt (req.item code) = x
  rw [Go.runs_bind]
  constructor
  · -- The item has the response of the redemption, or the error with the code in front.
    rintro (⟨resp, d₁, hx, hf⟩ | ⟨e, hx, rfl⟩)
    · obtain ⟨r', hr', heq⟩ := Go.runs_withContext.mp hx
      obtain ⟨rfl, n, rfl⟩ := Go.runs_pure.mp hf
      cases r' with
      | error e => cases heq
      | ok resp' =>
        obtain rfl := Except.ok.inj heq
        exact Or.inl ⟨resp, hr'.later n, rfl⟩
    · obtain ⟨r', hr', heq⟩ := Go.runs_withContext.mp hx
      cases r' with
      | ok resp' => cases heq
      | error cause =>
        obtain rfl := Except.error.inj heq
        exact Or.inr ⟨cause, hr', rfl⟩
  · rintro (⟨resp, hx, rfl⟩ | ⟨cause, hx, rfl⟩)
    · refine Or.inl ⟨resp, d', Go.runs_withContext.mpr ⟨.ok resp, hx, rfl⟩, ?_⟩
      exact Go.runs_pure.mpr ⟨rfl, 0, by simp⟩
    · exact Or.inr ⟨_, Go.runs_withContext.mpr ⟨.error cause, hx, rfl⟩, rfl⟩

/-- A code that is not fresh is skipped with its message, without a call of `Redeem`. -/
theorem redeemItem_skipped (hseen : SeenBefore seen before) (h : ¬FreshCode before code)
    {r : Except GoError (List String × BatchRedeemItem)} :
    (redeemItem rt req seen code).Runs d r d' ↔
      r = .ok (seen, skippedItem code (skipMessage code)) ∧
        ∃ n : ℕ, d' = { d with clock := d.clock + n } := by
  unfold redeemItem
  rw [itemError_of_not_fresh hseen h]
  exact Go.runs_pure

/-! ## The loop -/

/-- Time may pass before the calls are made, since only the clock changes. -/
theorem RedeemsInOrder.tick {resps : List RedeemResponse} {n : ℕ}
    (h : RedeemsInOrder rt req codes { d with clock := d.clock + n } resps d') :
    RedeemsInOrder rt req codes d resps d' := by
  cases codes with
  | nil =>
    obtain ⟨rfl, m, rfl⟩ := redeemsInOrder_nil.mp h
    exact redeemsInOrder_nil.mpr ⟨rfl, n + m, by simp [add_assoc]⟩
  | cons code codes =>
    obtain ⟨resp, resps', d₁, rfl, hfirst, hrest⟩ := redeemsInOrder_cons.mp h
    exact redeemsInOrder_cons.mpr ⟨resp, resps', d₁, rfl, .tick n hfirst, hrest⟩

/-- Time may pass before the calls of which one fails. -/
theorem FailsInOrder.tick {err : GoError} {n : ℕ}
    (h : FailsInOrder rt req codes { d with clock := d.clock + n } err d') :
    FailsInOrder rt req codes d err d' := by
  cases codes with
  | nil => exact absurd h not_failsInOrder_nil
  | cons code codes =>
    rcases failsInOrder_cons.mp h with ⟨cause, hfail, herr⟩ | ⟨resp, d₁, hfirst, hrest⟩
    · exact failsInOrder_cons.mpr (Or.inl ⟨cause, .tick n hfail, herr⟩)
    · exact failsInOrder_cons.mpr (Or.inr ⟨resp, d₁, .tick n hfirst, hrest⟩)

/-- What the loop does for the codes behind others: it makes the calls for the fresh codes, and
returns their items or the error of a call. -/
def LoopRuns (rt : Runtime) (req : BatchRedeemRequest) (before codes : List String)
    (resp : BatchRedeemResponse) (d : Database Unit) (r : Except GoError BatchRedeemResponse)
    (d' : Database Unit) : Prop :=
  (∃ resps, RedeemsInOrder rt req (freshCodes before codes) d resps d' ∧
    r = .ok ((expectedItems before codes resps).foldl .add resp)) ∨
  ∃ err, FailsInOrder rt req (freshCodes before codes) d err d' ∧ r = .error err

/-- The loop for a fresh code and the codes behind it. -/
theorem loopRuns_fresh {resp : BatchRedeemResponse} {r : Except GoError BatchRedeemResponse}
    (h : FreshCode before code) :
    LoopRuns rt req before (code :: codes) resp d r d' ↔
      (∃ one d₁, (redeem rt (req.item code)).Runs d (.ok one) d₁ ∧
        LoopRuns rt req (before ++ [code]) codes (resp.add (itemOf code one)) d₁ r d') ∨
      ∃ cause, (redeem rt (req.item code)).Runs d (.error cause) d' ∧
        r = .error (.wrap ("redeem batch code \"" ++ normalizeCode code ++ "\"") cause) := by
  have hcodes : freshCodes before (code :: codes) = code :: freshCodes (before ++ [code]) codes :=
    if_pos h
  have hitems : ∀ one resps, expectedItems before (code :: codes) (one :: resps) =
      itemOf code one :: expectedItems (before ++ [code]) codes resps := fun one resps => if_pos h
  unfold LoopRuns
  rw [hcodes]
  constructor
  · rintro (⟨resps, hdone, rfl⟩ | ⟨err, hfail, rfl⟩)
    · obtain ⟨one, resps', d₁, rfl, hfirst, hrest⟩ := redeemsInOrder_cons.mp hdone
      refine Or.inl ⟨one, d₁, hfirst, Or.inl ⟨resps', hrest, ?_⟩⟩
      rw [hitems, List.foldl_cons]
    · rcases failsInOrder_cons.mp hfail with ⟨cause, hfirst, rfl⟩ | ⟨one, d₁, hfirst, hrest⟩
      · exact Or.inr ⟨cause, hfirst, rfl⟩
      · exact Or.inl ⟨one, d₁, hfirst, Or.inr ⟨err, hrest, rfl⟩⟩
  · rintro (⟨one, d₁, hfirst, ⟨resps, hrest, rfl⟩ | ⟨err, hrest, rfl⟩⟩ | ⟨cause, hfirst, rfl⟩)
    · refine Or.inl ⟨one :: resps, redeemsInOrder_cons.mpr ⟨one, resps, d₁, rfl, hfirst, hrest⟩, ?_⟩
      rw [hitems, List.foldl_cons]
    · exact Or.inr ⟨err, failsInOrder_cons.mpr (Or.inr ⟨one, d₁, hfirst, hrest⟩), rfl⟩
    · exact Or.inr ⟨_, failsInOrder_cons.mpr (Or.inl ⟨cause, hfirst, rfl⟩), rfl⟩

/-- The loop for another code and the codes behind it. -/
theorem loopRuns_skipped {resp : BatchRedeemResponse} {r : Except GoError BatchRedeemResponse}
    (h : ¬FreshCode before code) :
    LoopRuns rt req before (code :: codes) resp d r d' ↔
      LoopRuns rt req (before ++ [code]) codes (resp.add (skippedItem code (skipMessage code)))
        d r d' := by
  have hcodes : freshCodes before (code :: codes) = freshCodes (before ++ [code]) codes :=
    if_neg h
  have hitems : ∀ resps, expectedItems before (code :: codes) resps =
      skippedItem code (skipMessage code) :: expectedItems (before ++ [code]) codes resps :=
    fun resps => if_neg h
  unfold LoopRuns
  rw [hcodes]
  simp only [hitems, List.foldl_cons]

/-- Time may pass before the loop begins, since only the clock changes. -/
theorem LoopRuns.tick {resp : BatchRedeemResponse} {r : Except GoError BatchRedeemResponse} {n : ℕ}
    (h : LoopRuns rt req before codes resp { d with clock := d.clock + n } r d') :
    LoopRuns rt req before codes resp d r d' := by
  rcases h with ⟨resps, hdone, rfl⟩ | ⟨err, hfail, rfl⟩
  · exact Or.inl ⟨resps, hdone.tick, rfl⟩
  · exact Or.inr ⟨err, hfail.tick, rfl⟩

/-- The loop runs as the calls for the fresh codes. -/
theorem redeemCodes_runs {resp : BatchRedeemResponse} {r : Except GoError BatchRedeemResponse}
    (hseen : SeenBefore seen before) :
    (redeemCodes rt req seen resp codes).Runs d r d' ↔
      LoopRuns rt req before codes resp d r d' := by
  induction codes generalizing seen before resp d with
  -- No code is left: the loop returns what it has, and time may have passed.
  | nil =>
    have hnil : LoopRuns rt req before [] resp d r d' ↔
        r = .ok resp ∧ ∃ n : ℕ, d' = { d with clock := d.clock + n } := by
      constructor
      · rintro (⟨resps, hdone, rfl⟩ | ⟨err, hfail, -⟩)
        · exact ⟨rfl, (redeemsInOrder_nil.mp hdone).2⟩
        · exact absurd hfail not_failsInOrder_nil
      · rintro ⟨rfl, hd⟩
        exact Or.inl ⟨[], redeemsInOrder_nil.mpr ⟨rfl, hd⟩, rfl⟩
    rw [hnil]
    exact Go.runs_pure
  | cons code codes ih =>
    unfold redeemCodes
    rw [Go.runs_bind]
    -- A fresh code makes one redemption, any other one only an item.
    rcases Classical.em (FreshCode before code) with hfresh | hskip
    · rw [loopRuns_fresh hfresh]
      simp only [redeemItem_fresh hseen hfresh]
      constructor
      · rintro (⟨item, d₁, ⟨one, hone, hitem⟩ | ⟨cause, -, hitem⟩, hrest⟩ |
          ⟨err, ⟨one, -, herr⟩ | ⟨cause, hone, herr⟩, rfl⟩)
        · obtain rfl := Except.ok.inj hitem
          exact Or.inl ⟨one, d₁, hone, (ih (hseen.fresh hfresh)).mp hrest⟩
        · cases hitem
        · cases herr
        · exact Or.inr ⟨cause, hone, congrArg Except.error (Except.error.inj herr)⟩
      · rintro (⟨one, d₁, hone, hrest⟩ | ⟨cause, hone, rfl⟩)
        · exact Or.inl ⟨_, d₁, Or.inl ⟨one, hone, rfl⟩, (ih (hseen.fresh hfresh)).mpr hrest⟩
        · exact Or.inr ⟨_, Or.inr ⟨cause, hone, rfl⟩, rfl⟩
    · rw [loopRuns_skipped hskip]
      simp only [redeemItem_skipped hseen hskip]
      constructor
      · rintro (⟨item, d₁, ⟨hitem, n, rfl⟩, hrest⟩ | ⟨err, ⟨herr, -⟩, -⟩)
        · obtain rfl := Except.ok.inj hitem
          exact ((ih (hseen.skipped hskip)).mp hrest).tick
        · cases herr
      · intro h
        exact Or.inl ⟨_, d, ⟨rfl, 0, by simp⟩, (ih (hseen.skipped hskip)).mpr h⟩

/-! ## The response -/

/-- The response of a batch whose items are known. -/
def BatchRedeemRequest.responseOf (req : BatchRedeemRequest) (items : List BatchRedeemItem) :
    BatchRedeemResponse :=
  { req.start with
    succeeded := items.countP (·.ok), failed := items.countP (!·.ok), results := items }

/-- Adding the items to the response before the first code gives the response of the batch. -/
theorem foldl_add_start (req : BatchRedeemRequest) (items : List BatchRedeemItem) :
    items.foldl .add req.start = req.responseOf items := by
  induction items using List.reverseRecOn with
  | nil => rfl
  | append_singleton items item ih =>
    rw [List.foldl_append, ih, List.foldl_cons, List.foldl_nil]
    cases hok : item.ok <;>
      simp [BatchRedeemResponse.add, BatchRedeemRequest.responseOf, List.countP_append, hok]

/-- Without a key, and with an input that is accepted, a call of `BatchRedeem` does what calls of
`Redeem` for its fresh codes do that are made one after the other: it returns the response of their
items if all of them return one, and otherwise the error of the first one that fails, and it leaves
the database as they do. -/
theorem batch_refines_singles (hinput : checkBatchInput req.trimmed = none)
    (hkey : req.idempotencyKey = "") {r : Except GoError BatchRedeemResponse} :
    CallRuns rt (.batchRedeem req) d (.batchRedeem r) d' ↔
      (∃ resps, RedeemsInOrder rt req.trimmed (freshCodes [] req.codes) d resps d' ∧
        r = .ok (req.responseOf (expectedItems [] req.codes resps))) ∨
      ∃ err, FailsInOrder rt req.trimmed (freshCodes [] req.codes) d err d' ∧ r = .error err := by
  have hnone : SeenBefore [] [] := fun c => by simp
  have hloop : batchRedeem rt req = redeemCodes rt req.trimmed [] req.trimmed.start req.codes := by
    rw [batchRedeem, hinput]
    exact if_pos hkey
  have hresp : ∀ items : List BatchRedeemItem, items.foldl .add req.trimmed.start =
      req.responseOf items := fun items => foldl_add_start req.trimmed items
  rw [callRuns_batchRedeem, hloop, redeemCodes_runs hnone, LoopRuns]
  simp only [hresp]

/-- Three codes, of which the second one is the first one again and the third one does not exist. -/
def threeCodes : BatchRedeemRequest := ⟨"u", ["aaaa", "AAAA", "bbbb"], "", ""⟩

/-- They are redeemed from the tables with one code. -/
def redeemThree : Start Unit :=
  Start.of (fun _ => .batchRedeem threeCodes) rewardTables ⟨2, 2, 2, 1, 1⟩ rewardTables_below
    checkIntegrity_rewardTables

/-- The run of the batch in which all of its operations succeed. -/
def redeemThreeRun : List (Action Unit Choice) :=
  List.replicate 18 (.exec () ⟨1, String.ofList (List.replicate 32 'a'), .unsent⟩)

/-- The response of a batch redemption, where the call was one and has returned without an error. -/
def Result.batchResponse? : Result → Option BatchRedeemResponse
  | .batchRedeem (.ok resp) => some resp
  | _ => none

/-- Only batch redemptions without an error have one. -/
theorem Result.batchResponse?_eq_some {r : Result} {resp : BatchRedeemResponse}
    (h : r.batchResponse? = some resp) : r = .batchRedeem (.ok resp) := by
  match r, h with
  | .batchRedeem (.ok resp'), h => rw [Option.some.inj h]

/-- The batch redeems the first code and the third one, as two calls of `Redeem` do. -/
theorem batch_refines_singles_three : ∃ resp resps d',
    CallRuns .simple (.batchRedeem threeCodes) redeemThree.state.db (.batchRedeem (.ok resp)) d' ∧
    RedeemsInOrder .simple threeCodes.trimmed ["aaaa", "bbbb"] redeemThree.state.db resps d' ∧
    resp = threeCodes.responseOf (expectedItems [] threeCodes.codes resps) ∧
    resp.results.map BatchRedeemItem.ok = [true, false, false] := by
  have hsome : ((redeemThree.result? redeemThreeRun ()).bind Result.batchResponse?).any
      (fun resp => resp.results.map BatchRedeemItem.ok = [true, false, false]) = true := by
    decide +kernel
  obtain ⟨resp, hresp, hok⟩ := (Option.any_eq_true _ _).mp hsome
  obtain ⟨r, hr, hresp⟩ := Option.bind_eq_some_iff.mp hresp
  obtain ⟨s, hs, hp⟩ := Start.result?_eq_some hr
  rw [Result.batchResponse?_eq_some hresp] at hp
  have hruns : CallRuns .simple (.batchRedeem threeCodes) redeemThree.state.db
      (.batchRedeem (.ok resp)) s.db := ⟨redeemThreeRun, s, hs, hp, rfl⟩
  have hfresh : freshCodes [] threeCodes.codes = ["aaaa", "bbbb"] := by decide +kernel
  have hinput : checkBatchInput threeCodes.trimmed = none := by decide +kernel
  have hiff := (batch_refines_singles hinput rfl).mp hruns
  rw [hfresh] at hiff
  rcases hiff with ⟨resps, hdone, heq⟩ | ⟨err, -, heq⟩
  · exact ⟨resp, resps, s.db, hruns, hdone, Except.ok.inj heq, of_decide_eq_true hok⟩
  · cases heq

end CdkSystem
