import CdkSystem.Proof.Alone

/-!
# All or nothing

A redemption that runs alone, with any of its operations failing, has exactly the effects that its
result announces: an error or an input that is not accepted changes nothing, a business failure adds
its row, and a success makes all the changes of a success (`redeem_all_or_nothing`).

That nothing is left behind by an error needs all exits of the function: each of them either comes
before the first write or rolls back, and the response to a business failure is committed with its
row. The outline has shown this for every interleaving, so here it is read off for a call that has
the database to itself, where the commits are all the difference there is (`Start.redeem_effect`).
-/

namespace CdkSystem

open RowLock Relational

/-- A redemption without a key, or with a key that is not stored yet, whichever of its operations
fail, leaves the committed tables as its result announces. -/
theorem redeem_all_or_nothing {start : Start Unit} {req : RedeemRequest}
    (hcall : start.calls () = .redeem req)
    (hkey : req.idempotencyKey ≠ "" → start.tables.keys.get? req.idempotencyKey = none)
    {as : List (Action Unit Choice)} {s : State Unit} {r : Result} (h : start.run as = some s)
    (hret : s.progs () = some (.ret r)) :
    ∃ r', r = .redeem r' ∧ RedeemEffect start.rt req.trimmed start.tables s.db.tables r' :=
  Start.redeem_effect hcall hkey h hret

/-- A batch with a webhook that assigns credentials. -/
def rewardBatch : Batch :=
  { id := 1, name := "b", description := "", payloadJson := .obj [], codePrefix := ""
    codeLength := 8, expiresAt := none, maxUsesPerCode := 1, maxRedeemsPerUser := 1
    webhookUrl := "https://a.example", webhookSecret := "", assignCredential := true
    credentialPlanType := "plus", status := .active }

/-- One code of that batch, and one credential. -/
def rewardTables : Tables :=
  { Tables.empty with
    batches := ⟨[rewardBatch], by decide⟩
    codes := ⟨[⟨1, 1, "AAAA", .unused, 0⟩], by decide⟩
    credentials := ⟨[⟨1, "a@example.com", "plus", none, .obj [], false, none⟩], by decide⟩ }

/-- The rows have `id`s below their sequences. -/
theorem rewardTables_below : rewardTables.Below ⟨2, 2, 2, 1, 1⟩ := by decide +kernel

/-- The tables of the example satisfy the constraints of the schema. -/
theorem checkIntegrity_rewardTables : rewardTables.checkIntegrity = true := by decide +kernel

/-- The code is redeemed with a key. -/
def rewardOne : Start Unit :=
  Start.of (fun _ => .redeem ⟨"u", "aaaa", "k", ""⟩) rewardTables ⟨2, 2, 2, 1, 1⟩ rewardTables_below
    checkIntegrity_rewardTables

/-- The run in which all operations of the call succeed. -/
def rewardRun : List (Action Unit Choice) :=
  List.replicate 15 (.exec () ⟨1, String.ofList (List.replicate 32 'a'), .unsent⟩)

/-- The code is redeemed, with exactly the changes of a success. -/
theorem redeem_all_or_nothing_reward : ∃ s resp, rewardOne.run rewardRun = some s ∧
    resp.ok = true ∧ RedeemEffect rewardOne.rt (RedeemRequest.trimmed ⟨"u", "aaaa", "k", ""⟩)
      rewardTables s.db.tables (.ok resp) := by
  have hsome : ((rewardOne.result? rewardRun ()).bind Result.response?).any RedeemResponse.ok =
      true := by
    decide +kernel
  obtain ⟨resp, hresp, hok⟩ := (Option.any_eq_true _ _).mp hsome
  obtain ⟨r, hr, hresp⟩ := Option.bind_eq_some_iff.mp hresp
  obtain ⟨s, hs, hp⟩ := Start.result?_eq_some hr
  rw [Result.response?_eq_some hresp] at hp
  have hkey : "k" ≠ "" → rewardOne.tables.keys.get? "k" = none := fun _ => rfl
  obtain ⟨r', heq, heffect⟩ := redeem_all_or_nothing rfl hkey hs hp
  obtain rfl := Result.redeem.inj heq
  exact ⟨s, resp, hs, hok, heffect⟩

end CdkSystem
