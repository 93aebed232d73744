import TokenGate.Json.Content
/-!
# `TokenGate.Message.Request`: what a caller asks the validation service

A request is tagged by its `type` field: `VALIDATE_DEVICE_TOKEN` carries a `token`,
`VALIDATE_X509_CERTIFICATE` carries a certificate `hash`, and every other tag
(including an empty one) is an `unsupported` request, answered with an empty response.

Reading goes in two passes (`TokenGate.Json.Content`): the tag and the held-back rest,
then the variant's record from the rest. A tag that is not a string is refused while
reading; faults of the second pass are unplaced.
-/

set_option autoImplicit false

namespace TokenGate

open Json

/-- A request to the validation service. -/
inductive Request where
  | validateDeviceToken (token : String)
  | validateX509Certificate (hash : String)
  | unsupported
  deriving DecidableEq, Inhabited

namespace Request

/-- The request kinds, as named in logs and answers. -/
def kind : Request → String
  | .validateDeviceToken _ => "validate_device_token"
  | .validateX509Certificate _ => "validate_x509_certificate"
  | .unsupported => "unsupported"

/-- The variant a tag names: `0` device token, `1` certificate, `2` anything else. -/
def tagIndex (s : String) : Nat :=
  if s == "VALIDATE_DEVICE_TOKEN" then 0
  else if s == "VALIDATE_X509_CERTIFICATE" then 1
  else 2

/-- Build the variant named by the tag from the held-back rest of the request. -/
def ofContent (tag : Nat) (rest : Content) : Except String Request :=
  match tag with
  | 0 => validateDeviceToken <$> rest.singleString "ValidateDeviceTokenRequest" "token"
  | 1 => validateX509Certificate <$> rest.singleString "ValidateX509CertificateRequest" "hash"
  | _ => (fun _ => unsupported) <$> rest.unitVariant

/-- Read a request. -/
def reader : Reader Request := do
  let (tag, rest) ← Reader.tagged "type" "internally tagged enum TransportApiRequest"
    (Reader.variantName fun s => .ok (tagIndex s))
  Reader.check (ofContent tag rest)

/-- A request as a JSON object: the tag first, then the variant's field. -/
def toValue : Request → Value
  | .validateDeviceToken t => .object [("type", .string "VALIDATE_DEVICE_TOKEN"), ("token", .string t)]
  | .validateX509Certificate h =>
    .object [("type", .string "VALIDATE_X509_CERTIFICATE"), ("hash", .string h)]
  | .unsupported => .object [("type", .string "UNSUPPORTED")]

end Request

end TokenGate
