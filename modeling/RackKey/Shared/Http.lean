import Mathlib.Data.List.Basic
import RackKey.Shared.Utils

set_option autoImplicit false

/-! # Requests and responses

The requests and responses of the two servers, the paths they serve, and what `parsePath`
makes of the path of a key.
-/

namespace RackKey

open Words

inductive Method where
  | GET
  | PUT
  | DEL
  | other
  deriving DecidableEq, Repr

structure Request where
  method : Method
  /-- The relative URI. -/
  uri : Bytes
  body : Bytes
  deriving DecidableEq, Repr

inductive StatusCode where
  | OK
  | InternalError
  | NotImplemented
  deriving DecidableEq, Repr

structure Response where
  status : StatusCode
  body : Bytes
  deriving DecidableEq, Repr

/-- The text `/store`. -/
def storePath : Bytes := [47, 115, 116, 111, 114, 101]

/-- The text `/health`. -/
def healthPath : Bytes := [47, 104, 101, 97, 108, 116, 104]

/-- The text `/sync`. -/
def syncPath : Bytes := [47, 115, 121, 110, 99]

/-- The text `/keys`. -/
def keysPath : Bytes := [47, 107, 101, 121, 115]

/-- The text `/stats`. -/
def statsPath : Bytes := [47, 115, 116, 97, 116, 115]

/-- `/store/` followed by a key. -/
def storeUri (key : Bytes) : Bytes := storePath ++ [ApiUtils.slash] ++ key

/-- A key as a client can address it: no `/` and no null byte. -/
structure PlainKey (key : Bytes) : Prop where
  slash : ApiUtils.slash ∉ key
  nul : (0 : UInt8) ∉ key

namespace ApiUtils

theorem splitLastSlash_append {pre key : Bytes} (h : slash ∉ key) :
    splitLastSlash (pre ++ [slash] ++ key) = some (pre, key) := by
  have hrev : (pre ++ [slash] ++ key).reverse = key.reverse ++ slash :: pre.reverse := by simp
  have hfind : ((pre ++ [slash] ++ key).reverse).findIdx? (· == slash) = some key.length := by
    rw [hrev, List.findIdx?_append]
    have hnone : key.reverse.findIdx? (· == slash) = none := by
      rw [List.findIdx?_eq_none_iff]
      intro x hx
      have hx : x ∈ key := List.mem_reverse.mp hx
      simp only [beq_eq_false_iff_ne]
      exact fun he => h (he ▸ hx)
    rw [hnone]
    simp [List.findIdx?_cons]
  unfold splitLastSlash
  rw [hfind]
  simp only [List.length_append, List.length_singleton]
  have h1 : pre.length + 1 + key.length - 1 - key.length = pre.length := by omega
  have h2 : pre.length + 1 + key.length - key.length = (pre ++ [slash]).length := by
    rw [List.length_append, List.length_singleton]
    omega
  rw [h1, h2, List.drop_left, List.append_assoc, List.take_left]

/-- The path of a plain key is taken apart again. -/
theorem parsePath_storeUri {key : Bytes} (h : PlainKey key) :
    parsePath (storeUri key) = (storePath, key) := by
  unfold parsePath storeUri
  by_cases hkey : key = []
  · subst hkey
    rfl
  · have hlast : (storePath ++ [slash] ++ key).getLast? ≠ some slash := by
      rw [List.getLast?_append_of_ne_nil _ hkey]
      intro hl
      exact h.slash (List.mem_of_getLast? hl)
    rw [if_neg hlast]
    dsimp only
    rw [splitLastSlash_append h.slash]
    rfl

end ApiUtils

end RackKey
