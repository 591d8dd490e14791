import KernelWeaver.Merge.Group
import KernelWeaver.Model.Encoding

/-!
# Merged models

All updates of a model, merged for each of the purposes for which code is generated.
-/

namespace KernelWeaver

/-- The merged groups of a model. -/
structure MergedModel where
  /-- Custom updates, by update group. -/
  updates : List (String × List (MergedGroup CustomUpdate))
  /-- Connectivity updates with code for rows, by update group. -/
  connectivity : List (String × List (MergedGroup ConnectivityUpdate))
  /-- Connectivity updates with code for the host, by update group. -/
  host : List (String × List (MergedGroup ConnectivityUpdate))
  /-- Custom updates with variables to initialise. -/
  init : List (MergedGroup CustomUpdate)
  /-- Connectivity updates with presynaptic variables or random number streams to initialise. -/
  preInit : List (MergedGroup ConnectivityUpdate)
  /-- Connectivity updates with postsynaptic variables to initialise. -/
  postInit : List (MergedGroup ConnectivityUpdate)
  /-- Connectivity updates with variables of synapses to initialise. -/
  sparseInit : List (MergedGroup ConnectivityUpdate)

namespace MergedModel

/-- Whether presynaptic variables or random number streams are initialised. -/
def needsPreInit (u : ConnectivityUpdate) : Bool :=
  u.model.usesRandom || anyInitialised u.preInits u.model.preVars

/-- The merged groups of a model. -/
def ofModel (m : Model) : MergedModel where
  updates :=
    MergedGroup.mergeByName "CustomUpdate" false CustomUpdate.encoding (·.group) m.updates 0
      m.groups
  connectivity :=
    MergedGroup.mergeByName "CustomConnectivityUpdate" false ConnectivityUpdate.encoding (·.group)
      (m.connectivity.filter (·.model.hasRowCode)) 0 m.groups
  host :=
    MergedGroup.mergeByName "CustomConnectivityHostUpdate" true ConnectivityUpdate.hostEncoding
      (·.group) (m.connectivity.filter (·.model.hasHostCode)) 0 m.groups
  init :=
    MergedGroup.merge "CustomUpdateInit" false 0 CustomUpdate.initEncoding
      (m.updates.filter fun u => anyInitialised u.inits u.model.vars)
  preInit :=
    MergedGroup.merge "CustomConnectivityUpdatePreInit" false 0 ConnectivityUpdate.preInitEncoding
      (m.connectivity.filter needsPreInit)
  postInit :=
    MergedGroup.merge "CustomConnectivityUpdatePostInit" false 0 ConnectivityUpdate.postInitEncoding
      (m.connectivity.filter fun u => anyInitialised u.postInits u.model.postVars)
  sparseInit :=
    MergedGroup.merge "CustomConnectivityUpdateSparseInit" false 0
      ConnectivityUpdate.sparseInitEncoding (m.connectivity.filter fun u => anyInitialised u.inits u.model.vars)

/-- The groups of all update groups together. -/
def flatten {α : Type} (groups : List (String × List (MergedGroup α))) : List (MergedGroup α) :=
  groups.flatMap Prod.snd

/-- The number of merged groups. -/
def size (m : MergedModel) : Nat :=
  (flatten m.updates).length + (flatten m.connectivity).length + (flatten m.host).length +
    m.init.length + m.preInit.length + m.postInit.length + m.sparseInit.length

end MergedModel

end KernelWeaver
