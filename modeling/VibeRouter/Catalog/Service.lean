import VibeRouter.Db.Schema

/-! # Effective capabilities

What a model can do: an operator's override wins, then the ceiling of the provider kind, then
the synced capability. -/

namespace VibeRouter

/-- `KIND_CAPABILITY_CEILING`: capabilities a kind does not have whatever its rows say. -/
def KIND_CAPABILITY_CEILING : ProviderKind → List CapabilityKey
  | .local_ocr => [.json_schema, .tools]
  | _ => []

def effectiveCapabilities (model : ModelRow) (key : CapabilityKey) : Bool :=
  let base := if (KIND_CAPABILITY_CEILING model.providerKind).contains key then some false
    else model.capabilities.get key
  match model.capabilityOverrides.get key with
  | some b => b
  | none => base.getD false

end VibeRouter
