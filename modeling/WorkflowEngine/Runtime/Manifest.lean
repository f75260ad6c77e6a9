import WorkflowEngine.Lib.OrderedMap

/-!
# Workflow manifests

The manifest types of `core/src/index.ts`. The refinements of
`workflowManifestSchema` and `ManifestSchema` that relate names and fields are
fields themselves. Below them stands what the runtime derives from one manifest
alone: the decrypted secrets and the action schemas.
-/

namespace WorkflowEngine.Runtime

open Lib
set_option autoImplicit false

universe u

/-- A parsed JSON value; numbers keep their text. -/
inductive Json where
  | null
  | bool (b : Bool)
  | number (text : String)
  | string (s : String)
  | array (items : List Json)
  | object (fields : List (String × Json))

inductive TriggerKind where
  | http | cron | manual | imap | ws
  deriving DecidableEq

structure ActionManifest where
  name : String
  input : Json
  output : Json

/-- `config` holds the fields that only one kind of trigger has. -/
structure TriggerManifest where
  type : TriggerKind
  name : String
  config : Json
  inputSchema : Json
  outputSchema : Json

structure QueueManifest where
  name : String
  schema : Json

structure WorkflowManifest where
  name : String
  module : String
  sha : String
  env : OrderedMap String String
  secrets : Option (OrderedMap String String)
  secretsKeyId : Option String
  actions : List ActionManifest
  triggers : List TriggerManifest
  queues : List QueueManifest
  queueNames_nodup : (queues.map (·.name)).Nodup := by decide
  secrets_iff : secrets.isSome = secretsKeyId.isSome := by decide
  secrets_disjoint : ∀ m ∈ secrets, ∀ k ∈ m.keys, k ∉ env.keys := by decide
  triggers_nonempty : triggers ≠ [] := by decide
  triggerNames_nodup : (triggers.map (·.name)).Nodup := by decide
  actionNames_nodup : (actions.map (·.name)).Nodup := by decide

structure Manifest where
  workflows : List WorkflowManifest
  names_nodup : (workflows.map (·.name)).Nodup := by decide

/-- A workflow with one trigger and its queues, and nothing else. -/
def WorkflowManifest.plain (name sha : String) (env : OrderedMap String String) (trigger : TriggerManifest)
    (queues : List QueueManifest) (h : (queues.map (·.name)).Nodup) : WorkflowManifest where
  name := name
  module := name ++ ".js"
  sha := sha
  env := env
  secrets := none
  secretsKeyId := none
  actions := []
  triggers := [trigger]
  queues := queues
  queueNames_nodup := h
  secrets_disjoint := by simp
  triggers_nonempty := by simp
  triggerNames_nodup := List.nodup_singleton _
  actionNames_nodup := List.nodup_nil

def Manifest.single (workflow : WorkflowManifest) : Manifest := ⟨[workflow], List.nodup_singleton _⟩

/-- `lookup` finds the key pair of a fingerprint; the value is `unsealCiphertext` under it. -/
structure SecretsKeyStore where
  lookup : String → Option (String → Except String String)

def decryptSealed (ciphertext keyId : String) (store : SecretsKeyStore) : Except String String :=
  match store.lookup keyId with
  | none => .error ("unknown secretsKeyId \"" ++ keyId ++ "\"")
  | some unsealCiphertext => unsealCiphertext ciphertext

def decryptWorkflowSecrets (workflow : WorkflowManifest) (keyStore : SecretsKeyStore) :
    Except String (OrderedMap String String) :=
  match workflow.secrets, workflow.secretsKeyId with
  | some secrets, some keyId =>
    secrets.entries.foldlM (fun out e => do
      let plaintext ← decryptSealed e.2 keyId keyStore
      return out.set e.1 plaintext) .empty
  | _, _ => .ok .empty

/-- The config of the `host-call-action` plugin. -/
structure HostCallActionConfig where
  inputSchemas : OrderedMap String Json
  outputSchemas : OrderedMap String Json

def compileActionValidators (manifest : WorkflowManifest) : HostCallActionConfig where
  inputSchemas := manifest.actions.foldl (fun m a => m.set a.name a.input) .empty
  outputSchemas := manifest.actions.foldl (fun m a => m.set a.name a.output) .empty

end WorkflowEngine.Runtime
