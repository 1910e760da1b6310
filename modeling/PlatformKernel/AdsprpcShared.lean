-- The two drivers, and the values that they take from adsprpc_shared.h. The
-- header is not part of the repository, so they are a parameter of the model;
-- what the drivers rely on is said where a law needs it.
import Mathlib.Data.BitVec

namespace virtual_fastrpc

/-- The virtio driver sends its calls through the backend. The hybrid driver sends them to
the DSP itself, and asks the backend for mappings only. -/
inductive Driver
  | virtio | hybrid
  deriving DecidableEq, Repr

structure AdsprpcShared where
  /-- The values of `enum fastrpc_response_flags`. -/
  NORMAL_RESPONSE : BitVec 32
  USER_EARLY_SIGNAL : BitVec 32
  EARLY_RESPONSE : BitVec 32
  COMPLETE_SIGNAL : BitVec 32
  /-- The type of a PD status notification. -/
  STATUS_RESPONSE : BitVec 32
  /-- The sizes of the response structures, in bytes. -/
  sizeof_smq_invoke_rsp : Nat
  sizeof_smq_invoke_rspv2 : Nat
  sizeof_smq_notif_rspv3 : Nat
  /-- The sizes of the parts of the metadata of an invoke, in bytes. -/
  sizeof_remote_arg64 : Nat
  sizeof_smq_invoke_buf : Nat
  sizeof_smq_phy_page : Nat
  /-- The attributes of a map. -/
  FASTRPC_ATTR_NOVA : BitVec 32
  FASTRPC_ATTR_KEEP_MAP : BitVec 32
  FASTRPC_ATTR_NOMAP : BitVec 32
  /-- The values of `enum fastrpc_map_flags` that the drivers name. -/
  FASTRPC_MAP_STATIC : BitVec 32
  FASTRPC_MAP_FD : BitVec 32
  FASTRPC_MAP_FD_DELAYED : BitVec 32
  FASTRPC_MAP_FD_NOMAP : BitVec 32

/-- One choice of these values, for the runs on fixed inputs. -/
def sampleShared : AdsprpcShared where
  NORMAL_RESPONSE := 0
  USER_EARLY_SIGNAL := 1
  EARLY_RESPONSE := 2
  COMPLETE_SIGNAL := 3
  STATUS_RESPONSE := 2
  sizeof_smq_invoke_rsp := 16
  sizeof_smq_invoke_rspv2 := 24
  sizeof_smq_notif_rspv3 := 24
  sizeof_remote_arg64 := 16
  sizeof_smq_invoke_buf := 8
  sizeof_smq_phy_page := 16
  FASTRPC_ATTR_NOVA := 1
  FASTRPC_ATTR_KEEP_MAP := 8
  FASTRPC_ATTR_NOMAP := 16
  FASTRPC_MAP_STATIC := 0
  FASTRPC_MAP_FD := 2
  FASTRPC_MAP_FD_DELAYED := 3
  FASTRPC_MAP_FD_NOMAP := 16

end virtual_fastrpc
