import YantraRgs.Await.Pool
import YantraRgs.Services.SigningKeys

/-! # The files of certificates

A file is put to a certificate with a token, which ends after a quarter of an hour. The file is written
to the disk, and a transaction then marks the token and notes the file's place, size and digest.

* **`mintUploadUrl`** — a new token.
* **`consumeUploadToken`** — an upload.
* **`uploadServer`** — all of it as a system. -/

namespace YantraRgs.CertStorage

open Await SigningKeys

def TOKEN_TTL_MS : Millis := 15 * 60000

/-- **The primitives**: lower case, the escapes of addresses, digests, and the mode of the storage. -/
structure Env where
  toLowerCase : Text → Text
  encodeURIComponent : Text → Text
  sha256 : List Byte → Text
  CERT_STORAGE_MODE : Option Text

/-- Only files on the disk are implemented. -/
def Env.storageMode (env : Env) : Text := env.CERT_STORAGE_MODE.getD "local".toList

/-- A token. -/
structure CertUploadToken where
  certificateId : Nat
  token : Text
  createdByUserId : Text
  expiresAt : Millis
  consumedAt : Option Millis
  deriving DecidableEq

/-- A certificate, as far as its file goes. -/
structure Certificate where
  revokedAt : Option Millis
  filePath : Option Text
  fileSize : Option Nat
  fileSha256 : Option Text
  deriving DecidableEq

/-- The place of a file. -/
structure FilePath where
  certificateId : Nat
  finalName : Text
  deriving DecidableEq

/-- An upload that succeeded. -/
structure Consumed where
  call : Nat
  tokenId : Nat
  certificateId : Nat
  path : FilePath
  bytes : List Byte
  deriving DecidableEq

/-- The tables and the disk, with what is needed to say what uploads are for. -/
structure World where
  now : Millis
  tokens : List CertUploadToken
  certificates : List Certificate
  /-- The files, the one written last first. -/
  files : List (FilePath × List Byte)
  /-- Which call stored which file. -/
  stored : List (Nat × FilePath × List Byte)
  /-- A file was written where one was. -/
  overwritten : Bool
  /-- The uploads that succeeded, in order. -/
  consumed : List Consumed

/-- What is at a place of the disk. -/
def World.file (w : World) (path : FilePath) : Option (List Byte) :=
  (w.files.find? fun x => x.1 = path).map Prod.snd

/-- The upload that succeeded last for a certificate. -/
def World.latest (w : World) (certificateId : Nat) : Option Consumed :=
  (w.consumed.filter fun s => s.certificateId = certificateId).getLast?

/-- Why an operation fails. -/
inductive StorageError
  | certificateNotFound
  | certificateRevoked
  | modeNotImplemented (mode : Text)
  /-- The token is in the table already. -/
  | tokenTaken
  | tokenNotFound
  | tokenAlreadyConsumed
  | tokenExpired
  | sha256Mismatch
  deriving DecidableEq

/-- A piece of a call; what is drawn is the bytes of a token. -/
abbrev Action := Prog World (Vector Byte 24)

/-- What is handed out of a token. -/
structure MintedUpload where
  token : Text
  uploadUrl : Text
  expiresAt : Text
  ttlMs : Millis

/-- **A new token** for a certificate that is not revoked. -/
def mintUploadUrl (env : Env) (certificateId : Nat) (createdByUserId : Text) :
    Action (Except StorageError MintedUpload) := do
  let cert ← Prog.query fun w => w.certificates[certificateId]?
  match cert with
  | none => pure (.error .certificateNotFound)
  | some cert =>
      if cert.revokedAt.isSome then pure (.error .certificateRevoked)
      else if env.storageMode ≠ "local".toList then
        pure (.error (.modeNotImplemented env.storageMode))
      else do
        let (token, expiresAt) ← Prog.lift fun _ bytes w =>
          some ((toBase64Url bytes.toList, w.now + TOKEN_TTL_MS), w)
        Prog.request fun _ w =>
          if w.tokens.any fun x => x.token = token then (.error .tokenTaken, w)
          else
            (.ok
              { token
                uploadUrl := "/v1/platform/uploads/".toList ++ token
                expiresAt := toISOString expiresAt
                ttlMs := TOKEN_TTL_MS },
            { w with
              tokens := w.tokens ++ [⟨certificateId, token, createdByUserId, expiresAt, none⟩] })

/-- What an upload brings. -/
structure UploadArgs where
  token : Text
  bytes : List Byte
  declaredSha256 : Option Text
  originalName : Option Text

/-- A character of a name: letters, digits, underscores, dots and dashes stay, every other half of a
character becomes an underscore. -/
def safeChar (c : Char) : Text :=
  if c.isAlphanum ∨ c = '_' ∨ c = '.' ∨ c = '-' then [c]
  else if c.toNat < 0x10000 then ['_']
  else ['_', '_']

/-- The name under which a file is stored at a time. -/
def finalName (now : Millis) (originalName : Option Text) : Text :=
  Nat.toDigits 10 now ++ '-' :: ((originalName.getD "artifact.bin".toList).flatMap safeChar).take 100

/-- What is handed out of an upload. -/
structure ConsumedUpload where
  filePath : Text
  fileSize : Nat
  fileSha256 : Text

/-- The address of a stored file. -/
def downloadUrl (env : Env) (path : FilePath) : Text :=
  "/v1/platform/uploads/download/".toList ++ Nat.toDigits 10 path.certificateId ++
    '/' :: env.encodeURIComponent path.finalName

/-- What is said of a stored file. -/
def consumedUpload (env : Env) (path : FilePath) (bytes : List Byte) : ConsumedUpload :=
  ⟨downloadUrl env path, bytes.length, env.sha256 bytes⟩

/-- Whether a declared digest is not the one of the bytes; an empty one is none. -/
def mismatch (env : Env) (args : UploadArgs) : Bool :=
  args.declaredSha256.any fun declared =>
    declared ≠ [] ∧ env.toLowerCase declared ≠ env.sha256 args.bytes

/-- A file is written. -/
def World.writeFile (w : World) (call : Nat) (path : FilePath) (bytes : List Byte) : World :=
  { w with
    files := (path, bytes) :: w.files
    stored := w.stored ++ [(call, path, bytes)]
    overwritten := w.overwritten || (w.file path).isSome }

/-- What is checked of an upload once its token was read, and the writing of the file. -/
def World.write (env : Env) (w : World) (call : Nat) (row : CertUploadToken) (args : UploadArgs) :
    Except StorageError (FilePath × Millis) × World :=
  let path : FilePath := ⟨row.certificateId, finalName w.now args.originalName⟩
  if row.expiresAt < w.now then (.error .tokenExpired, w)
  else if mismatch env args then (.error .sha256Mismatch, w)
  else if env.storageMode ≠ "local".toList then (.error (.modeNotImplemented env.storageMode), w)
  else (.ok (path, w.now), w.writeFile call path args.bytes)

/-- The transaction of an upload; it fails where the certificate is gone. -/
def World.record (env : Env) (w : World) (call tokenId : Nat) (path : FilePath) (bytes : List Byte)
    (consumedAt : Millis) : Option World :=
  if path.certificateId < w.certificates.length then
    some { w with
      tokens := w.tokens.modify tokenId fun x => { x with consumedAt := some consumedAt }
      certificates := w.certificates.modify path.certificateId fun x => { x with
        filePath := some (downloadUrl env path)
        fileSize := some bytes.length
        fileSha256 := some (env.sha256 bytes) }
      consumed := w.consumed ++ [⟨call, tokenId, path.certificateId, path, bytes⟩] }
  else none

/-- **An upload**: the token is checked, the file is written, and then a transaction marks the token and
notes the file. -/
def consumeUploadToken (env : Env) (args : UploadArgs) :
    Action (Except StorageError ConsumedUpload) := do
  let found ← Prog.query fun w =>
    (w.tokens.findIdx? fun x => x.token = args.token).bind fun id =>
      w.tokens[id]?.map fun row => (id, row)
  match found with
  | none => pure (.error .tokenNotFound)
  | some (id, row) =>
      if row.consumedAt.isSome then pure (.error .tokenAlreadyConsumed)
      else do
        let written ← Prog.request fun i w => w.write env i row args
        match written with
        | .error e => pure (.error e)
        | .ok (path, now) =>
            Prog.request fun i w =>
              match w.record env i id path args.bytes now with
              | none => (.error .certificateNotFound, w)
              | some w' => (.ok (consumedUpload env path args.bytes), w')

/-! ## The system -/

/-- What can be called. -/
inductive Call
  | mint (certificateId : Nat) (createdByUserId : Text)
  | consume (args : UploadArgs)

/-- The program of a call. -/
def Call.code (env : Env) : Call → Action Unit
  | .mint certificateId createdByUserId => do
      let _ ← mintUploadUrl env certificateId createdByUserId
      pure ()
  | .consume args => do
      let _ ← consumeUploadToken env args
      pure ()

/-- **The server, as far as files of certificates go**; outside time passes. -/
def uploadServer (env : Env) : System World (Vector Byte 24) Call Millis where
  code := Call.code env
  admits _ _ := true
  env ms w := some { w with now := w.now + ms }
  dies _ _ := false

/-- A state of the server. -/
abbrev State := Pool World (Vector Byte 24) Call

/-- An event of the server. -/
abbrev Happening := Event (Vector Byte 24) Call Millis

/-- A server without tokens, with the given certificates and files. -/
def initial (now : Millis) (certificates : List Certificate) (files : List (FilePath × List Byte)) :
    State :=
  ⟨⟨now, [], certificates, files, [], false, []⟩, []⟩

end YantraRgs.CertStorage
