import CdkSystem.Converter
import CdkSystem.Theorems.AccountTexts

/-!
# Converted accounts and their records

`convertOne` first gives `extra` the email that it also puts into the credentials, and the mark that
says what the account was converted from, and then copies the record's own properties over them
(`lookup_copyEntries`). So the two stay as they were computed exactly when the record has nothing
else under their names (`selfConsistent_iff`).

The record is read by its names, so what the account has under a name is told by lookups in lists of
properties: `lookup_setProperty` for an assignment, and `lookup_copyEntries` for the loop, which
skips the names of tokens. The email is the record's or, when that is empty, the one in the profile
of its access token; the loop then copies the record's own value over it. The condition says when
the two agree (`email_agrees_iff`).
-/

namespace CdkSystem

open Js (text unit)
open Converter

variable {ν : Type}

/-- What a lookup finds in a list with a property in front. -/
theorem lookup_cons_eq (k key : JsString) (v : JsValue ν) (fields : List (JsString × JsValue ν)) :
    ((k, v) :: fields).lookup key = if key = k then some v else fields.lookup key := by
  rw [List.lookup_cons]
  by_cases h : key = k
  · simp [h]
  · rw [beq_false_of_ne h, if_neg h]

/-- A new property is the one that is found. -/
theorem lookup_insertProperty {k : JsString} (v : JsValue ν) (key : JsString) :
    ∀ {fields : List (JsString × JsValue ν)}, k ∉ fields.map Prod.fst →
      (Js.insertProperty k v fields).lookup key = if key = k then some v else fields.lookup key
  | [], _ => lookup_cons_eq k key v []
  | (other, w) :: fields, hk => by
    rw [List.map_cons, List.mem_cons, not_or] at hk
    have ih := lookup_insertProperty v key hk.2
    have hfront := lookup_cons_eq k key v ((other, w) :: fields)
    have hback : ((other, w) :: Js.insertProperty k v fields).lookup key =
        if key = k then some v else ((other, w) :: fields).lookup key := by
      rw [lookup_cons_eq, lookup_cons_eq, ih]
      by_cases h : key = other
      · have hne : key ≠ k := fun he => hk.1 (he.symm.trans h)
        rw [if_pos h, if_pos h, if_neg hne]
      · rw [if_neg h, if_neg h]
    rw [Js.insertProperty]
    cases Js.arrayIndex? k with
    | none => exact hback
    | some n =>
      cases Js.arrayIndex? other with
      | none => exact hfront
      | some m =>
        by_cases hlt : n < m
        · simpa only [hlt, if_true] using hfront
        · simpa only [hlt, if_false] using hback

/-- The value of an existing property is replaced. -/
theorem lookup_map_replace {k : JsString} (v : JsValue ν) (key : JsString) :
    ∀ {fields : List (JsString × JsValue ν)}, k ∈ fields.map Prod.fst →
      (fields.map fun f => if f.1 = k then (k, v) else f).lookup key =
        if key = k then some v else fields.lookup key
  | [], hk => by simp at hk
  | (other, w) :: fields, hk => by
    rw [List.map_cons, lookup_cons_eq other]
    by_cases h : other = k
    · rw [if_pos h, lookup_cons_eq]
      by_cases hkey : key = k
      · rw [if_pos hkey, if_pos hkey]
      · rw [if_neg hkey, if_neg hkey, if_neg fun he => hkey (he.trans h)]
        by_cases hrest : k ∈ fields.map Prod.fst
        · rw [lookup_map_replace v key hrest, if_neg hkey]
        · have hsame : (fields.map fun f => if f.1 = k then (k, v) else f) = fields := by
            refine (List.map_congr_left fun f hf => if_neg ?_).trans (List.map_id' fields)
            exact fun he => hrest (he ▸ List.mem_map_of_mem hf)
          rw [hsame]
    · have hmem : k ∈ fields.map Prod.fst := by
        rw [List.map_cons, List.mem_cons] at hk
        exact hk.resolve_left fun he => h he.symm
      rw [if_neg h, lookup_cons_eq, lookup_map_replace v key hmem]
      by_cases hkey : key = k
      · have hne : key ≠ other := fun he => h (he.symm.trans hkey)
        simp only [if_neg hne, if_pos hkey]
      · simp only [if_neg hkey]

/-- A property that was set is found, and the others are as before. -/
theorem lookup_setProperty (fields : List (JsString × JsValue ν)) (k key : JsString)
    (v : JsValue ν) :
    (Js.setProperty fields k v).lookup key = if key = k then some v else fields.lookup key := by
  unfold Js.setProperty
  by_cases hk : k ∈ fields.map Prod.fst
  · rw [if_pos hk, lookup_map_replace v key hk]
  · rw [if_neg hk, lookup_insertProperty v key hk]

/-- Whether a key is one of the tokens'. -/
def IsTokenKey (key : JsString) : Prop :=
  key = text "access_token" ∨ key = text "id_token" ∨ key = text "refresh_token"

/-- The entries of a record are copied over what was there, but for the tokens and the prototype. -/
theorem lookup_copyEntries (key : JsString) (htoken : ¬IsTokenKey key)
    (hproto : key ≠ text "__proto__") :
    ∀ {entries : List (JsString × JsValue ν)} (extra : AccountExtra ν),
      (entries.map Prod.fst).Nodup → (copyEntries extra entries).fields.lookup key =
        (entries.lookup key).or (extra.fields.lookup key)
  | [], extra, _ => rfl
  | (k, v) :: entries, extra, hnodup => by
    rw [List.map_cons, List.nodup_cons] at hnodup
    rw [copyEntries, lookup_cons_eq]
    by_cases hk : key = k
    · -- This is the entry of the key: no later entry has it.
      have hnone : entries.lookup key = none := by
        rw [List.lookup_eq_none_iff]
        intro f hf
        have hmem : f.1 ∈ entries.map Prod.fst := List.mem_map_of_mem hf
        have hne : key ≠ f.1 := fun he => hnodup.1 ((hk.symm.trans he) ▸ hmem)
        exact bne_iff_ne.mpr hne
      have hcopied : k ≠ text "access_token" ∧ k ≠ text "id_token" ∧ k ≠ text "refresh_token" := by
        rw [← hk]
        exact ⟨fun h => htoken (.inl h), fun h => htoken (.inr (.inl h)),
          fun h => htoken (.inr (.inr h))⟩
      have hassign : assign extra k v =
          { extra with fields := Js.setProperty extra.fields k v } := by
        unfold assign
        rw [if_neg (hk ▸ hproto)]
      rw [if_pos hcopied, lookup_copyEntries key htoken hproto _ hnodup.2, hnone, hassign,
        if_pos hk]
      simp only [lookup_setProperty, if_pos hk, Option.none_or, Option.some_or]
    · have hassign : (assign extra k v).fields.lookup key = extra.fields.lookup key := by
        unfold assign
        by_cases hp : k = text "__proto__"
        · rw [if_pos hp]
          cases v <;> rfl
        · rw [if_neg hp]
          simp only [lookup_setProperty, if_neg hk]
      rw [if_neg hk]
      -- Another entry is copied or left out, and either way it is not the key's.
      by_cases hcopied : k ≠ text "access_token" ∧ k ≠ text "id_token" ∧ k ≠ text "refresh_token"
      · rw [if_pos hcopied, lookup_copyEntries key htoken hproto _ hnodup.2, hassign]
      · rw [if_neg hcopied, lookup_copyEntries key htoken hproto _ hnodup.2]

/-- The tokens of a record are not copied among the extra properties of the account. -/
theorem lookup_copyEntries_token {key : JsString} (htoken : IsTokenKey key) :
    ∀ (entries : List (JsString × JsValue ν)) (extra : AccountExtra ν),
      (copyEntries extra entries).fields.lookup key = extra.fields.lookup key
  | [], extra => rfl
  | (k, v) :: entries, extra => by
    rw [copyEntries]
    by_cases hcopied : k ≠ text "access_token" ∧ k ≠ text "id_token" ∧ k ≠ text "refresh_token"
    · have hne : key ≠ k := by
        rintro rfl
        rcases htoken with h | h | h
        · exact hcopied.1 h
        · exact hcopied.2.1 h
        · exact hcopied.2.2 h
      rw [if_pos hcopied, lookup_copyEntries_token htoken entries]
      unfold assign
      by_cases hp : k = text "__proto__"
      · rw [if_pos hp]
        cases v <;> rfl
      · rw [if_neg hp]
        simp only [lookup_setProperty, if_neg hne]
    · rw [if_neg hcopied]
      exact lookup_copyEntries_token htoken entries extra

/-- Whether an account is consistent with itself and with its record: its two emails agree, it is
marked as converted, it has no tokens among the extra properties, and every other property of the
record is there. -/
structure SelfConsistent (cpa : AccountRecord ν) (account : ConvertedAccount ν) : Prop where
  email : account.extra.fields.lookup (text "email") = some (.str account.credentials.email)
  convertedFrom : account.extra.fields.lookup (text "converted_from") = some (.str (text "cpa"))
  noTokens : ∀ key, IsTokenKey key → account.extra.fields.lookup key = none
  copied : ∀ key value, ¬IsTokenKey key → key ≠ text "email" → key ≠ text "converted_from" →
    key ≠ text "__proto__" → cpa.fields.lookup key = some value →
      account.extra.fields.lookup key = some value

/-- The email in the profile of a record's access token, as a text. -/
def profileEmail (numbers : NumberText ν) (cpa : AccountRecord ν) : Option JsString := do
  let accessToken ← stringOf numbers (cpa.get "access_token")
  let jwt := if accessToken = [] then .obj [] else decodeJWT numbers accessToken
  let openaiProfile ← claimOf jwt "https://api.openai.com/profile"
  stringOf numbers (← property openaiProfile "email")

/-- Whether a record leaves the computed properties alone: its email, if it has one, is a text,
which is empty only if the token has none either, and it is not marked as converted from something
else. -/
def LeavesComputed (numbers : NumberText ν) (cpa : AccountRecord ν) : Prop :=
  (cpa.get "email" = none ∨ ∃ email, cpa.get "email" = some (.str email) ∧
    (email = [] → profileEmail numbers cpa = some [])) ∧
  (cpa.get "converted_from" = none ∨ cpa.get "converted_from" = some (.str (text "cpa")))

/-- What `convertOne` makes of a record: the email of the credentials, with which `extra` starts. -/
theorem convertOne_spec {browser : Browser ν} {cpa : AccountRecord ν} {exportedAt : JsString}
    {index : ℕ} {file : Sub2ApiAccount ν}
    (h : convertOne browser cpa exportedAt index = some file) :
    ∃ account email, file.accounts = [account] ∧
      stringOf browser.numbers (cpa.get "email") = some email ∧
      orElseText email (profileEmail browser.numbers cpa) = some account.credentials.email ∧
      account.extra = copyEntries
        { fields := [(text "email", .str account.credentials.email),
            (text "converted_from", .str (text "cpa"))]
          prototype := none } cpa.fields := by
  unfold convertOne at h
  -- The fields are read in the order of the source, each of which may throw.
  obtain ⟨email, hemail, h⟩ := Option.bind_eq_some_iff.mp h
  obtain ⟨accessToken, htoken, h⟩ := Option.bind_eq_some_iff.mp h
  obtain ⟨accountId, -, h⟩ := Option.bind_eq_some_iff.mp h
  obtain ⟨planType, -, h⟩ := Option.bind_eq_some_iff.mp h
  obtain ⟨idToken, -, h⟩ := Option.bind_eq_some_iff.mp h
  obtain ⟨refreshToken, -, h⟩ := Option.bind_eq_some_iff.mp h
  obtain ⟨expired, -, h⟩ := Option.bind_eq_some_iff.mp h
  obtain ⟨openaiAuth, -, h⟩ := Option.bind_eq_some_iff.mp h
  obtain ⟨openaiProfile, hprofile, h⟩ := Option.bind_eq_some_iff.mp h
  obtain ⟨userIdField, -, h⟩ := Option.bind_eq_some_iff.mp h
  obtain ⟨userId, -, h⟩ := Option.bind_eq_some_iff.mp h
  obtain ⟨clientField, -, h⟩ := Option.bind_eq_some_iff.mp h
  obtain ⟨clientId, -, h⟩ := Option.bind_eq_some_iff.mp h
  obtain ⟨credentialsEmail, hcredentials, h⟩ := Option.bind_eq_some_iff.mp h
  obtain ⟨credentialsPlan, -, h⟩ := Option.bind_eq_some_iff.mp h
  obtain ⟨extraEmail, hextra, h⟩ := Option.bind_eq_some_iff.mp h
  obtain rfl := Option.some.inj h
  -- The email is computed twice, from the same values.
  have hsame : extraEmail = credentialsEmail := Option.some.inj (hextra.symm.trans hcredentials)
  refine ⟨_, email, rfl, hemail, ?_, by rw [hsame]⟩
  have hprofileEmail : profileEmail browser.numbers cpa =
      (property openaiProfile "email").bind (stringOf browser.numbers) := by
    unfold profileEmail
    rw [htoken]
    exact congrArg (Option.bind · fun openaiProfile =>
      (property openaiProfile "email").bind (stringOf browser.numbers)) hprofile
  rw [← hcredentials, hprofileEmail]
  rfl

/-- The email of the credentials is the record's own one when that is a text, and not when it is
empty and the token's is not. -/
theorem email_agrees_iff {numbers : NumberText ν} {cpa : AccountRecord ν} {email result : JsString}
    (hemail : stringOf numbers (cpa.get "email") = some email)
    (hresult : orElseText email (profileEmail numbers cpa) = some result) :
    (cpa.get "email" = none ∨ cpa.get "email" = some (.str result)) ↔
      (cpa.get "email" = none ∨ ∃ own, cpa.get "email" = some (.str own) ∧
        (own = [] → profileEmail numbers cpa = some [])) := by
  have hown : ∀ own, cpa.get "email" = some (.str own) → own = email := by
    intro own h
    rw [h] at hemail
    simpa [stringOf, toText] using hemail
  unfold orElseText at hresult
  refine or_congr_right ⟨fun h => ⟨result, h, fun hnil => ?_⟩, ?_⟩
  · rwa [if_pos ((hown result h).symm.trans hnil), hnil] at hresult
  · rintro ⟨own, h, hnil⟩
    have he := hown own h
    by_cases hempty : email = []
    · rw [if_pos hempty, hnil (he.trans hempty)] at hresult
      rw [h, he, hempty, Option.some.inj hresult]
    · rw [if_neg hempty] at hresult
      rw [h, he, Option.some.inj hresult]

/-- A property that starts as a text is still that text when the record does not have it or has the
same one. -/
theorem or_eq_str_iff (own : Option (JsValue ν)) (s : JsString) :
    own.or (some (.str s)) = some (.str s) ↔ own = none ∨ own = some (.str s) := by
  cases own <;> simp

/-- A converted account is consistent exactly when its record leaves the computed properties alone.
-/
theorem selfConsistent_iff {browser : Browser ν} {cpa : AccountRecord ν} {exportedAt : JsString}
    {index : ℕ} {file : Sub2ApiAccount ν}
    (h : convertOne browser cpa exportedAt index = some file) :
    (∀ account ∈ file.accounts, SelfConsistent cpa account) ↔
      LeavesComputed browser.numbers cpa := by
  obtain ⟨account, email, haccounts, hemail, hresult, hextra⟩ := convertOne_spec h
  have hkeys : ¬IsTokenKey (text "email") ∧ ¬IsTokenKey (text "converted_from") := by
    unfold IsTokenKey
    decide
  have hlookup := fun key htoken hproto => lookup_copyEntries key htoken hproto
    { fields := [(text "email", .str account.credentials.email),
        (text "converted_from", .str (text "cpa"))], prototype := none } cpa.nodup
  rw [← hextra] at hlookup
  -- What `extra` has under the two computed names is the record's value, if there is one.
  have hmail : account.extra.fields.lookup (text "email") =
      (cpa.get "email").or (some (.str account.credentials.email)) := by
    rw [hlookup _ hkeys.1 (by decide), lookup_cons_eq, if_pos rfl, AccountRecord.get]
  have hfrom : account.extra.fields.lookup (text "converted_from") =
      (cpa.get "converted_from").or (some (.str (text "cpa"))) := by
    rw [hlookup _ hkeys.2 (by decide), lookup_cons_eq, if_neg (by decide), lookup_cons_eq,
      if_pos rfl, AccountRecord.get]
  have hmail_iff := email_agrees_iff hemail hresult
  rw [haccounts]
  constructor
  · intro hall
    have hconsistent := hall account (by simp)
    refine ⟨hmail_iff.mp ?_, ?_⟩
    · exact (or_eq_str_iff _ _).mp (hmail.symm.trans hconsistent.email)
    · exact (or_eq_str_iff _ _).mp (hfrom.symm.trans hconsistent.convertedFrom)
  · rintro ⟨hleft, hright⟩ account' haccount
    obtain rfl := List.mem_singleton.mp haccount
    refine ⟨?_, ?_, ?_, ?_⟩
    · exact hmail.trans ((or_eq_str_iff _ _).mpr (hmail_iff.mpr hleft))
    · exact hfrom.trans ((or_eq_str_iff _ _).mpr hright)
    · -- A token is neither copied nor one of the computed properties.
      intro key htoken
      have hne : key ≠ text "email" ∧ key ≠ text "converted_from" := by
        refine ⟨?_, ?_⟩
        · rintro rfl
          exact hkeys.1 htoken
        · rintro rfl
          exact hkeys.2 htoken
      rw [hextra, lookup_copyEntries_token htoken, lookup_cons_eq, if_neg hne.1, lookup_cons_eq,
        if_neg hne.2]
      rfl
    · intro key value htoken _ _ hproto hvalue
      rw [hlookup key htoken hproto, hvalue]
      rfl

/-- A browser whose clock shows noon on a day in summer. -/
def noonBrowser : Browser ℕ where
  numbers := naturals
  parseDate := fun _ => none
  isoNow := text "2026-07-17T12:00:00.000Z"
  month := 7
  date := 17
  hours := 12
  minutes := 0

/-- A token whose profile has the email `a@b.c`. -/
def profileToken : JsString :=
  text "h.eyJodHRwczovL2FwaS5vcGVuYWkuY29tL3Byb2ZpbGUiOnsiZW1haWwiOiJhQGIuYyJ9fQ.s"

/-- A record with a token and nothing else. -/
def tokenRecord : AccountRecord ℕ where
  fields := [(text "access_token", .str profileToken)]
  nodup := by decide

/-- The record with the token is converted into a consistent account. -/
theorem selfConsistent_tokenRecord :
    ∃ file, convertOne noonBrowser tokenRecord [] 1 = some file ∧
      ∀ account ∈ file.accounts, SelfConsistent tokenRecord account := by
  have hsome : (convertOne noonBrowser tokenRecord [] 1).isSome = true := by decide +kernel
  obtain ⟨file, hfile⟩ := Option.isSome_iff_exists.mp hsome
  exact ⟨file, hfile, (selfConsistent_iff hfile).mpr ⟨.inl rfl, .inl rfl⟩⟩

/-- A record with an empty email and a token whose profile has one. -/
def emptyEmailRecord : AccountRecord ℕ where
  fields := [(text "email", .str []), (text "access_token", .str profileToken)]
  nodup := by decide

/-- The text under a key of the extra properties. -/
def extraText (key : String) (account : ConvertedAccount ν) : Option JsString :=
  match account.extra.fields.lookup (text key) with
  | some (.str s) => some s
  | _ => none

/-- An empty email of the record is copied over the email of the token. -/
theorem not_selfConsistent : ¬∀ (cpa : AccountRecord ℕ) (exportedAt : JsString) (index : ℕ)
    (file : Sub2ApiAccount ℕ), convertOne noonBrowser cpa exportedAt index = some file →
      ∀ account ∈ file.accounts, SelfConsistent cpa account := by
  intro hall
  have heval : (convertOne noonBrowser emptyEmailRecord [] 1).map (fun file =>
      file.accounts.map fun a => (a.credentials.email, extraText "email" a)) =
        some [(text "a@b.c", some [])] := by
    decide +kernel
  obtain ⟨file, hfile, haccounts⟩ := Option.map_eq_some_iff.mp heval
  obtain ⟨account, rest, hlist, haccount, -⟩ := List.map_eq_cons_iff.mp haccounts
  have hconsistent := hall emptyEmailRecord [] 1 file hfile account (by simp [hlist])
  have hextra : extraText "email" account = some account.credentials.email := by
    unfold extraText
    rw [hconsistent.email]
  rw [Prod.mk.injEq] at haccount
  rw [haccount.1, haccount.2] at hextra
  exact absurd hextra (by decide)

end CdkSystem
