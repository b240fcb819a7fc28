import Mathlib.Data.List.Basic

/-!
# Discovery of workers

A discovery backend (`discovery/types.rs`) reports workers that appear, disappear or change their
role.

## Main definitions

* `Router.WorkerId`, `Router.ModelId`, `Router.WorkerMode`, `Router.WorkerSpec`: workers as the
  backend describes them.
* `Router.DiscoveryEvent`: what the backend reports.
-/

namespace SglangRs.Router

/-- An opaque worker identifier. -/
structure WorkerId where
  name : String
deriving DecidableEq, Repr

/-- An opaque model identifier. -/
structure ModelId where
  name : String
deriving DecidableEq, Repr

/-- The role of a worker. -/
inductive WorkerMode where
  | plain
  | prefill
  | decode
deriving DecidableEq, Repr

/-- A worker as a discovery backend describes it. -/
structure WorkerSpec where
  id : WorkerId
  url : String
  mode : WorkerMode
  modelIds : List ModelId
  bootstrapPort : Option UInt16
deriving DecidableEq, Repr

/-- What a discovery backend reports. -/
inductive DiscoveryEvent where
  | added (spec : WorkerSpec)
  | removed (id : WorkerId)
  | modeChanged (id : WorkerId) (mode : WorkerMode)
deriving DecidableEq, Repr

end SglangRs.Router
