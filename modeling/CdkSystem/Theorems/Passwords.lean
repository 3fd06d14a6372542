import CdkSystem.Password

/-!
# Password records decode to what was encoded

The fields of a password record are separated by dollar signs, which are no base64 digits, and each
is read as it was written. So verifying a password compares its key with the stored one, under the
salt and the parameters of the record (`verifyPassword_hashPassword`).

The record has six fields, and splitting it at the dollar signs gives exactly these, because neither
the numbers nor the digits of Base64 contain one (`splitOn_hashPassword`). Salt and key consist of
whole bytes, so decoding what was encoded gives them back whatever their lengths are
(`decodeString_encodeToString`). The key derivation is any function with keys of the right length:
nothing depends on what it computes, only that it is called with the same arguments again.
-/

namespace CdkSystem.Password

/-- A base64 digit that was written is read back as the number that it was. -/
theorem base64Digit?_base64Char : ∀ d < 64, base64Digit? (base64Char d) = some d := by
  decide

/-- A base64 digit is neither a line break nor a dollar sign. -/
theorem base64Char_ne : ∀ d < 64, base64Char d ≠ '\r' ∧ base64Char d ≠ '\n' ∧
    base64Char d ≠ '$' := by
  decide

/-- The dollar sign is no base64 digit. -/
theorem dollar_notMem_encodeToString (bytes : List UInt8) : '$' ∉ encodeToString bytes := by
  intro h
  obtain ⟨d, hd, he⟩ := List.mem_map.mp h
  exact (base64Char_ne d (Base64.lt_of_mem_sextets hd)).2.2 he

/-- Bytes are decoded as they were encoded. -/
theorem decodeString_encodeToString (bytes : List UInt8) :
    decodeString (encodeToString bytes) = some bytes := by
  have hfilter : (encodeToString bytes).filter (fun c => c ≠ '\r' ∧ c ≠ '\n') =
      encodeToString bytes := by
    rw [List.filter_eq_self]
    intro c hc
    obtain ⟨d, hd, rfl⟩ := List.mem_map.mp hc
    have hne := base64Char_ne d (Base64.lt_of_mem_sextets hd)
    exact decide_eq_true ⟨hne.1, hne.2.1⟩
  have hdigits : ∀ ds : List ℕ, (∀ d ∈ ds, d < 64) →
      (ds.map base64Char).mapM base64Digit? = some ds := by
    intro ds hds
    induction ds with
    | nil => rfl
    | cons d ds ih =>
      have hd := base64Digit?_base64Char d (hds d (by simp))
      rw [List.map_cons, List.mapM_cons, hd, ih fun e he => hds e (by simp [he])]
      rfl
  unfold decodeString
  rw [hfilter, encodeToString, hdigits _ fun d => Base64.lt_of_mem_sextets]
  exact Base64.octets_sextets bytes

/-- The fields of a password record, as `VerifyPassword` finds them between the dollar signs. -/
theorem splitOn_hashPassword (argon2 : Argon2) (password : List UInt8) (salt : Salt) :
    (hashPassword argon2 password salt).splitOn '$' =
      [[], "argon2id".toList, "v=19".toList, "m=65536,t=3,p=4".toList, encodeToString salt,
        encodeToString
          (argon2.idKey password salt argon2Time argon2Memory argon2Threads argon2KeyLen)] := by
  have hheader : header.toList = [] ++ '$' :: ("argon2id".toList ++ '$' :: ("v=19".toList ++
      '$' :: ("m=65536,t=3,p=4".toList ++ '$' :: []))) := by
    decide
  have hsplit : ∀ (front rest : List Char), '$' ∉ front →
      (front ++ '$' :: rest).splitOn '$' = front :: rest.splitOn '$' := by
    intro front rest h
    rw [List.splitOn_append_cons_self, List.splitOn_eq_singleton h, List.singleton_append]
  unfold hashPassword
  rw [hheader]
  simp only [List.append_assoc, List.cons_append, List.nil_append]
  rw [← List.nil_append ('$' :: _), hsplit [] _ (by simp), hsplit _ _ (by decide),
    hsplit _ _ (by decide), hsplit _ _ (by decide),
    hsplit _ _ (dollar_notMem_encodeToString _),
    List.splitOn_eq_singleton (dollar_notMem_encodeToString _)]

/-- Verifying a password against the record of another one compares their keys under the salt and
the parameters of the record, which are read as they were written. -/
theorem verifyPassword_hashPassword (argon2 : Argon2) (p q : List UInt8) (salt : Salt) :
    verifyPassword argon2 q (hashPassword argon2 p salt) =
        .ok (argon2.idKey q salt argon2Time argon2Memory argon2Threads argon2KeyLen ==
          argon2.idKey p salt argon2Time argon2Memory argon2Threads argon2KeyLen) ∧
      ∃ versionField parameters saltField hashField,
        (hashPassword argon2 p salt).splitOn '$' =
          [[], "argon2id".toList, versionField, parameters, saltField, hashField] ∧
        scanVersion versionField = some argon2Version ∧
        scanParameters parameters = some (argon2Memory, argon2Time, argon2Threads) ∧
        decodeString saltField = some salt ∧
        decodeString hashField =
          some (argon2.idKey p salt argon2Time argon2Memory argon2Threads argon2KeyLen) := by
  have hversion : scanVersion "v=19".toList = some argon2Version := by decide
  have hparameters : scanParameters "m=65536,t=3,p=4".toList =
      some (argon2Memory, argon2Time, argon2Threads) := by decide
  refine ⟨?_, _, _, _, _, splitOn_hashPassword argon2 p salt, hversion, hparameters,
    decodeString_encodeToString salt, decodeString_encodeToString _⟩
  have hlength := argon2.length_idKey p salt argon2Time argon2Memory argon2Threads argon2KeyLen
  have hpositive : ¬(argon2Time < 1 ∨ argon2Threads < 1) := by decide
  unfold verifyPassword
  rw [splitOn_hashPassword]
  simp only [hversion, hparameters, decodeString_encodeToString, hlength, hpositive, if_false,
    UInt32.ofNat_toNat, ne_eq, not_true_eq_false]

/-- A key derivation that repeats the password and the salt up to the length of the key. -/
def cyclicKey : Argon2 where
  idKey := fun password salt _ _ _ keyLen =>
    (List.range keyLen.toNat).map fun i =>
      (password ++ salt).getD (i % (password ++ salt).length) 0
  length_idKey := by simp

/-- A password is accepted against its own record, and another one is not. -/
theorem verifyPassword_cyclicKey :
    verifyPassword cyclicKey [1] (hashPassword cyclicKey [1] ⟨List.replicate 16 7, rfl⟩) =
      .ok true ∧
      verifyPassword cyclicKey [2] (hashPassword cyclicKey [1] ⟨List.replicate 16 7, rfl⟩) =
        .ok false := by
  have hsame := (verifyPassword_hashPassword cyclicKey [1] [1] ⟨List.replicate 16 7, rfl⟩).1
  have hother := (verifyPassword_hashPassword cyclicKey [1] [2] ⟨List.replicate 16 7, rfl⟩).1
  have hne : cyclicKey.idKey [2] (List.replicate 16 7) argon2Time argon2Memory argon2Threads
      argon2KeyLen ≠ cyclicKey.idKey [1] (List.replicate 16 7) argon2Time argon2Memory
        argon2Threads argon2KeyLen := by
    decide
  refine ⟨hsame.trans ?_, hother.trans ?_⟩
  · rw [beq_self_eq_true]
  · rw [beq_false_of_ne hne]

end CdkSystem.Password
