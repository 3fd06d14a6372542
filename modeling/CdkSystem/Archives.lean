import CdkSystem.JsValue

/-!
# Downloads of redeemed results

`createRedeemArchive` of `web/src/lib/redeem-archive.ts`, which packs what a batch redeemed into a
ZIP file.

The file names are made safe by replacing what is not a letter, a digit or one of a few other
characters. An archive is what the library JSZip makes of it: a file that is added under a name
replaces the one that had it.
-/

namespace CdkSystem

open Js (text unit)

/-- A ZIP file that is being made: the names and texts of its entries. -/
abbrev Zip := List (JsString × JsString)

/-- `JSZip.file(name, content)`: an entry of the same name is overwritten. -/
def Zip.file (zip : Zip) (name content : JsString) : Zip :=
  if name ∈ zip.map Prod.fst then
    zip.map fun entry => if entry.1 = name then (name, content) else entry
  else zip ++ [(name, content)]

variable {ν : Type}

/-- `RedeemSuccess` of the pages: a successful redemption as the API sends it. -/
structure RedeemSuccess (ν : Type) where
  message : JsString
  batch : JsString
  code : JsString
  userId : JsString
  payload : JsValue ν
  /-- The credential; the field is missing when the batch hands out none. -/
  credential : Option (JsValue ν)
  redeemedAt : JsString

/-- The object that the API sent, with its properties in the order in which they are serialized. -/
def RedeemSuccess.toValue (redemption : RedeemSuccess ν) : JsValue ν :=
  .obj ([(text "ok", .bool true), (text "result", .str (text "success")),
    (text "message", .str redemption.message), (text "batch", .str redemption.batch),
    (text "code", .str redemption.code), (text "user_id", .str redemption.userId),
    (text "payload", redemption.payload)] ++
    (redemption.credential.map fun credential => (text "credential", credential)).toList ++
    [(text "redeemed_at", .str redemption.redeemedAt)])

namespace Archive

/-- The text of the entry of an item. -/
def content (numbers : NumberText ν) (redemption : RedeemSuccess ν) : JsString :=
  Js.stringify numbers 2 (redemption.credential.getD redemption.toValue)

end Archive

end CdkSystem
