import ReapiCache.Storage.InMemory

/-! # The action cache service

Both handlers validate the artifacts an action result refers to. The validation
collects every referenced digest first and then checks the digests one by one; the
empty blob is stored on the way instead of being looked up.
-/
namespace ReapiCache.ActionCacheService
open Interaction

variable (env : Externals)

def EMPTY_SHA256 : String := "e3b0c44298fc1c149afbf4c8996fb92427ae41e4649b934ca495991b7852b855"

def casKey (instanceName : String) (algorithm : DigestAlgorithm) (digest : Digest) : BlobKey where
  instanceName := instanceName
  algorithm := algorithm
  hash := digest.hash
  kind := .contentAddressableStorage

def actionKey (instanceName : String) (algorithm : DigestAlgorithm) (digest : Digest) : BlobKey where
  instanceName := instanceName
  algorithm := algorithm
  hash := digest.hash
  kind := .actionCache

def internalError (err : StorageError) : Status := Status.internal err.toString

def collectOutputFileDigests (missingCode : Code) (outputFiles : List OutputFile) :
    Except Status (List Digest) :=
  outputFiles.mapM (fun file => okOr ⟨missingCode,"output file is missing its digest"⟩ file.digest)

def collectFileDigests (missingCode : Code) (files : List FileNode) : Except Status (List Digest) :=
  files.mapM (fun file => okOr ⟨missingCode,"output tree file is missing its digest"⟩ file.digest)

/-- Root files first, then the files of every child. -/
def collectTreeFileDigests (tree : Tree) (digests : List Digest) (missingCode : Code) :
    Except Status (List Digest) := do
  let root ← okOr ⟨missingCode,"output tree has no root"⟩ tree.root
  let rootDigests ← collectFileDigests missingCode root.files
  let childDigests ← tree.children.mapM (fun child => collectFileDigests missingCode child.files)
  .ok (digests ++ rootDigests ++ childDigests.flatten)

/-- The tree behind an output directory, from the store's reply. -/
def decodeOutputTree (missingCode : Code) (treeBlob : Option BlobRead) : Except Status Tree := do
  let treeBlob ← okOr ⟨missingCode,"output tree is missing from CAS"⟩ treeBlob
  let treeBytes ← (BlobCodec.intoIdentityData env treeBlob).mapError
    (fun err => Status.internal s!"failed to decompress output tree: {err.toString}")
  (env.decodeTree treeBytes).mapError (fun err => Status.internal s!"invalid output tree: {err.message}")

/-- One round of the loop over the output directories. -/
def collectOutputDirectory (instanceName : String) (algorithm : DigestAlgorithm) (missingCode : Code)
    (digests : List Digest) (outputDirectory : OutputDirectory) : Handler Status (List Digest) := do
  let treeDigest ← Failing.ofExcept (okOr ⟨missingCode,"output directory is missing its tree digest"⟩
    outputDirectory.treeDigest)
  let treeBlob ← storeGet internalError (casKey instanceName algorithm treeDigest)
  let tree ← Failing.ofExcept (decodeOutputTree env missingCode treeBlob)
  Failing.ofExcept (collectTreeFileDigests tree digests missingCode)

/-- One round of the loop over the collected digests. -/
def checkArtifact (instanceName : String) (algorithm : DigestAlgorithm) (missingCode : Code)
    (digest : Digest) : Handler Status Unit :=
  if digest.sizeBytes = 0 ∧ digest.hash = EMPTY_SHA256 then
    let emptyBlob := BlobRead.identity []
    storePut internalError (casKey instanceName algorithm digest) emptyBlob.metadata emptyBlob.body
  else do
    let present ← storeContains internalError (casKey instanceName algorithm digest)
    if present then pure ()
    else throw ⟨missingCode,
      s!"referenced artifact is missing from CAS: {digest.hash}/{digest.sizeBytes.toInt}"⟩

def validateActionResultArtifacts (instanceName : String) (algorithm : DigestAlgorithm)
    (actionResult : ActionResult) (missingCode : Code) : Handler Status Unit := do
  let fileDigests ← Failing.ofExcept (collectOutputFileDigests missingCode actionResult.outputFiles)
  let digests := fileDigests ++ actionResult.stdoutDigest.toList ++ actionResult.stderrDigest.toList
  let digests ← actionResult.outputDirectories.foldlM
    (collectOutputDirectory env instanceName algorithm missingCode) digests
  digests.foldlM (fun _ digest => checkArtifact instanceName algorithm missingCode digest) ()

/-- The cached result, from the store's reply. -/
def decodeCachedResult (blob : Option BlobRead) : Except Status ActionResult := do
  let blob ← okOr (.notFound "action result not cached") blob
  let bytes ← (BlobCodec.intoIdentityData env blob).mapError
    (fun err => Status.internal s!"failed to decompress action result: {err.toString}")
  (env.decodeActionResult bytes).mapError
    (fun err => Status.internal s!"invalid cached ActionResult: {err.message}")

def getActionResult (request : GetActionResultRequest) : Handler Status ActionResult := do
  let actionDigest ← Failing.ofExcept (okOr (.invalidArgument "missing action_digest")
    request.actionDigest)
  let algorithm ← Failing.ofExcept
    ((DigestAlgorithm.resolveProtoValue env request.digestFunction).mapError Status.invalidArgument)
  let blob ← storeGet internalError (actionKey request.instanceName algorithm actionDigest)
  let actionResult ← Failing.ofExcept (decodeCachedResult env blob)
  validateActionResultArtifacts env request.instanceName algorithm actionResult .notFound
  pure actionResult

/-- The command of the stored action, from the store's reply. -/
def decodeCommandDigest (actionBlob : Option BlobRead) : Except Status Digest := do
  let actionBlob ← okOr (.failedPrecondition "action is missing from CAS") actionBlob
  let actionBytes ← (BlobCodec.intoIdentityData env actionBlob).mapError
    (fun err => Status.failedPrecondition s!"failed to decompress Action in CAS: {err.toString}")
  let action ← (env.decodeAction actionBytes).mapError
    (fun err => Status.failedPrecondition s!"invalid Action in CAS: {err.message}")
  okOr (.failedPrecondition "Action has no command_digest") action.commandDigest

def encodeResult (actionResult : ActionResult) : Except Status BlobRead :=
  (BlobCodec.fromIdentityData env (env.encodeActionResult actionResult) .zstd).mapError
    (fun err => Status.internal s!"failed to compress action result: {err.toString}")

def updateActionResult (request : UpdateActionResultRequest) : Handler Status ActionResult := do
  let actionDigest ← Failing.ofExcept (okOr (.invalidArgument "missing action_digest")
    request.actionDigest)
  let actionResult ← Failing.ofExcept (okOr (.invalidArgument "missing action_result")
    request.actionResult)
  let algorithm ← Failing.ofExcept
    ((DigestAlgorithm.resolveProtoValue env request.digestFunction).mapError Status.invalidArgument)
  let actionBlob ← storeGet internalError (casKey request.instanceName algorithm actionDigest)
  let commandDigest ← Failing.ofExcept (decodeCommandDigest env actionBlob)
  let present ← storeContains internalError (casKey request.instanceName algorithm commandDigest)
  if present then do
    validateActionResultArtifacts env request.instanceName algorithm actionResult .failedPrecondition
    let actionResultBlob ← Failing.ofExcept (encodeResult env actionResult)
    storePut internalError (actionKey request.instanceName algorithm actionDigest)
      actionResultBlob.metadata actionResultBlob.body
    pure actionResult
  else throw (.failedPrecondition "command is missing from CAS")

end ReapiCache.ActionCacheService
