import CdkSystem.Integers
import CdkSystem.Lib.Base64
import CdkSystem.Text

/-!
# Passwords

`internal/auth/password.go`: the text under which a password is stored, and the comparison with it.
The key derivation `argon2.IDKey` is left open, but for the length of the key.

A record names the parameters of its derivation, and verifying reads them from the record and not
from the constants; a record that asks for no pass or no thread makes `argon2.IDKey` panic. That the
comparison takes the same time whatever the keys are is not modelled.
-/

namespace CdkSystem

/-- Argon2id, of which only the length of the keys that it derives is known here. -/
structure Argon2 where
  /-- `argon2.IDKey(password, salt, time, memory, threads, keyLen)`, for at least one pass and one
  thread. -/
  idKey : List UInt8 → List UInt8 → UInt32 → UInt32 → UInt8 → UInt32 → List UInt8
  /-- The key has the length that was asked for. -/
  length_idKey : ∀ password salt time memory threads keyLen,
    (idKey password salt time memory threads keyLen).length = keyLen.toNat

namespace Password

/-- `argon2Time`: the number of passes over the memory. -/
def argon2Time : UInt32 := 3

/-- `argon2Memory`: the memory in kibibytes, here 64 mebibytes. -/
def argon2Memory : UInt32 := 64 * 1024

/-- `argon2Threads`: the number of lanes. -/
def argon2Threads : UInt8 := 4

/-- `argon2KeyLen`: the number of bytes of the derived key. -/
def argon2KeyLen : UInt32 := 32

/-- `argon2SaltLen`: the number of random bytes of a salt. -/
def argon2SaltLen : ℕ := 16

/-- `argon2.Version`, the only version that the library implements. -/
def argon2Version : ℤ := 0x13

/-- A salt, as `rand.Read` fills it: any bytes, but always so many. -/
abbrev Salt := { salt : List UInt8 // salt.length = argon2SaltLen }

/-! ## Base64 -/

/-- The digit of six bits in the standard alphabet. -/
def base64Char (d : ℕ) : Char :=
  if d < 26 then Char.ofNat (65 + d)
  else if d < 52 then Char.ofNat (71 + d)
  else if d < 62 then Char.ofNat (d - 4)
  else if d = 62 then '+'
  else '/'

/-- The value of a digit in the standard alphabet. -/
def base64Digit? (c : Char) : Option ℕ :=
  if 65 ≤ c.toNat ∧ c.toNat ≤ 90 then some (c.toNat - 65)
  else if 97 ≤ c.toNat ∧ c.toNat ≤ 122 then some (c.toNat - 71)
  else if 48 ≤ c.toNat ∧ c.toNat ≤ 57 then some (c.toNat + 4)
  else if c = '+' then some 62
  else if c = '/' then some 63
  else none

/-- `base64.RawStdEncoding.EncodeToString`: the digits of the standard alphabet, without padding. -/
def encodeToString (bytes : List UInt8) : List Char := (Base64.sextets bytes).map base64Char

/-- `base64.RawStdEncoding.DecodeString`: line breaks are ignored, and padding is an error. -/
def decodeString (s : List Char) : Option (List UInt8) := do
  let digits ← (s.filter fun c => c ≠ '\r' ∧ c ≠ '\n').mapM base64Digit?
  Base64.octets digits

/-! ## Scanning -/

/-- The literal characters of a format of `fmt.Sscanf`. -/
def literal : List Char → List Char → Option (List Char)
  | [], input => some input
  | _ :: _, [] => none
  | f :: fs, c :: cs => if f = c then literal fs cs else none

/-- `SkipSpace`: a newline in the input is an error. -/
def skipSpace : List Char → Option (List Char)
  | [] => some []
  | c :: cs => if c = '\n' then none else if isSpace c then skipSpace cs else some (c :: cs)

/-- `scanNumber` of `fmt`: one or more digits, and what follows them. -/
def scanNumber (input : List Char) : Option (List Char × List Char) :=
  if input.head?.any Char.isDigit then
    some (input.takeWhile Char.isDigit, input.dropWhile Char.isDigit)
  else none

/-- `scanInt` of the verb `%d`, for an `int`. -/
def scanInt (input : List Char) : Option (ℤ × List Char) := do
  let input ← skipSpace input
  let sign := (input.head?.filter fun c => c = '+' || c = '-').toList
  let (digits, rest) ← scanNumber (input.drop sign.length)
  match parseInt (String.ofList (sign ++ digits)) 64 with
  | (i, none) => return (i, rest)
  | (_, some _) => none

/-- `scanUint` of the verb `%d`, for an unsigned integer of so many bits. -/
def scanUint (bits : ℕ) (input : List Char) : Option (ℕ × List Char) := do
  let (digits, rest) ← scanNumber (← skipSpace input)
  match parseUint digits 64 with
  | (i, none) => if i < 2 ^ bits then return (i, rest) else none
  | (_, some _) => none

/-- `fmt.Sscanf(s, "v=%d", &version)`: the version; what follows the number is not looked at. -/
def scanVersion (s : List Char) : Option ℤ := do
  let (version, _) ← scanInt (← literal "v=".toList s)
  return version

/-- `fmt.Sscanf(s, "m=%d,t=%d,p=%d", &memory, &time, &threads)`: the three parameters, in this
order. -/
def scanParameters (s : List Char) : Option (UInt32 × UInt32 × UInt8) := do
  let (memory, s) ← scanUint 32 (← literal "m=".toList s)
  let (time, s) ← scanUint 32 (← literal ",t=".toList s)
  let (threads, _) ← scanUint 8 (← literal ",p=".toList s)
  return (UInt32.ofNat memory, UInt32.ofNat time, UInt8.ofNat threads)

/-! ## Hashing and verifying -/

/-- What is written in front of the salt. -/
def header : String :=
  "$argon2id$v=" ++ toString argon2Version ++ "$m=" ++ toString argon2Memory.toNat ++ ",t=" ++
    toString argon2Time.toNat ++ ",p=" ++ toString argon2Threads.toNat ++ "$"

/-- `HashPassword`, with the salt from the random source. -/
def hashPassword (argon2 : Argon2) (password : List UInt8) (salt : Salt) : List Char :=
  let hash := argon2.idKey password salt argon2Time argon2Memory argon2Threads argon2KeyLen
  header.toList ++ encodeToString salt ++ '$' :: encodeToString hash

/-- The errors of `VerifyPassword`, and the panic of the key derivation for parameters that it
refuses. -/
inductive VerifyError where
  /-- `invalid hash format` -/
  | invalidFormat
  /-- `unsupported algorithm: …` -/
  | unsupportedAlgorithm (algorithm : List Char)
  /-- `invalid version: …` -/
  | invalidVersion
  /-- `incompatible argon2 version` -/
  | incompatibleVersion
  /-- `invalid parameters: …` -/
  | invalidParameters
  /-- `invalid salt: …` -/
  | invalidSalt
  /-- `invalid hash: …` -/
  | invalidHash
  /-- `argon2.IDKey` panics when there is no pass or no thread. -/
  | panics
  deriving DecidableEq

/-- `VerifyPassword`: the hash is taken apart, the key derived again, and the two keys compared. -/
def verifyPassword (argon2 : Argon2) (password : List UInt8) (encodedHash : List Char) :
    Except VerifyError Bool :=
  match encodedHash.splitOn '$' with
  | [_, algorithm, versionField, parameters, saltField, hashField] =>
    if algorithm ≠ "argon2id".toList then .error (.unsupportedAlgorithm algorithm)
    else
      match scanVersion versionField with
      | none => .error .invalidVersion
      | some version =>
        if version ≠ argon2Version then .error .incompatibleVersion
        else
          match scanParameters parameters with
          | none => .error .invalidParameters
          | some (memory, time, threads) =>
            match decodeString saltField with
            | none => .error .invalidSalt
            | some salt =>
              match decodeString hashField with
              | none => .error .invalidHash
              | some expectedHash =>
                if time < 1 ∨ threads < 1 then .error .panics
                else
                  let actualHash := argon2.idKey password salt time memory threads
                    (UInt32.ofNat expectedHash.length)
                  .ok (actualHash == expectedHash)
  | _ => .error .invalidFormat

end Password

end CdkSystem
