import ReapiCache.Externals

/-! # Digest algorithms and digest validation -/
namespace ReapiCache

/-- `u64::try_from` on a signed size. -/
def u64TryFrom (x : Int64) : Option ℕ := if x.toInt < 0 then none else some x.toInt.toNat

/-- Lower-case hexadecimal, two digits a byte. -/
def lowerHex (bytes : Bytes) : String :=
  String.ofList (bytes.flatMap (fun b => [Nat.digitChar (b.toNat / 16),Nat.digitChar (b.toNat % 16)]))

inductive DigestValidationError
  | negativeSize
  | sizeMismatch (expected actual : ℕ)
  | hashMismatch (expected actual : String)
deriving DecidableEq

def DigestValidationError.toString : DigestValidationError → String
  | .negativeSize => "digest size must not be negative"
  | .sizeMismatch expected actual => s!"size mismatch, expected: {expected}, actual: {actual}"
  | .hashMismatch expected actual => s!"hash mismatch, expected: {expected}, actual: {actual}"

inductive DigestAlgorithm
  | sha256
deriving DecidableEq

namespace DigestAlgorithm
variable (env : Externals)

def tryFrom : ProtoDigestFunction → Except String DigestAlgorithm
  | .sha256 => .ok .sha256
  | _ => .error "unsupported digest function"

def fromStr (value : String) : Except String DigestAlgorithm :=
  if value = "sha256" then .ok .sha256 else .error "unsupported digest function"

def resolveProtoValue (value : Int32) : Except String DigestAlgorithm :=
  match env.digestFunction value with
  | none => .error "unknown digest function"
  | some .unknown => .ok .sha256
  | some proto => tryFrom proto

def hashBytes (algorithm : DigestAlgorithm) (data : Bytes) : String :=
  match algorithm with
  | .sha256 => lowerHex (env.sha256 data).toList

def validate (algorithm : DigestAlgorithm) (expectedHash : String) (expectedSize : Int64)
    (data : Bytes) : Except DigestValidationError Unit :=
  match u64TryFrom expectedSize with
  | none => .error .negativeSize
  | some expectedSize =>
    let actualSize := data.length
    if actualSize ≠ expectedSize then .error (.sizeMismatch expectedSize actualSize)
    else
      let actualHash := algorithm.hashBytes env data
      if actualHash ≠ expectedHash then .error (.hashMismatch expectedHash actualHash)
      else .ok ()

end DigestAlgorithm

theorem u64TryFrom_eq_some {x : Int64} {n : ℕ} : u64TryFrom x = some n ↔ x.toInt = n := by
  unfold u64TryFrom
  split
  · simp only [reduceCtorEq, false_iff]
    omega
  · simp only [Option.some.injEq]
    omega

theorem u64TryFrom_eq_none {x : Int64} : u64TryFrom x = none ↔ x.toInt < 0 := by
  simp [u64TryFrom]

/-- Validation accepts exactly the data of the stated size and hash. -/
theorem validate_eq_ok {env : Externals} {algorithm : DigestAlgorithm} {hash : String} {size : Int64}
    {data : Bytes} : algorithm.validate env hash size data = .ok () ↔
      size.toInt = data.length ∧ algorithm.hashBytes env data = hash := by
  unfold DigestAlgorithm.validate
  cases hs : u64TryFrom size with
  | none =>
    have := u64TryFrom_eq_none.mp hs
    simp only [reduceCtorEq, false_iff, not_and]
    omega
  | some n =>
    have hn := u64TryFrom_eq_some.mp hs
    simp only [hn]
    split
    · simp only [reduceCtorEq, false_iff, not_and]
      omega
    · rename_i hlen
      have hlen : data.length = n := not_not.mp hlen
      by_cases hh : algorithm.hashBytes env data = hash <;> simp [hh, hlen]

theorem digitChar_ne_slash {n : ℕ} (h : n < 16) : Nat.digitChar n ≠ '/' := by
  revert n
  decide

/-- A hash is 64 hexadecimal digits, so it is not empty and contains no separator. -/
theorem slash_not_mem_hashBytes (env : Externals) (algorithm : DigestAlgorithm) (data : Bytes) :
    '/' ∉ (algorithm.hashBytes env data).toList := by
  cases algorithm
  simp only [DigestAlgorithm.hashBytes, lowerHex, String.toList_ofList, List.mem_flatMap, not_exists,
    not_and]
  intro b _ hm
  have hb := b.toNat_lt
  rcases List.mem_cons.mp hm with hm | hm
  · exact digitChar_ne_slash (by omega) hm.symm
  · exact digitChar_ne_slash (by omega) (List.mem_singleton.mp hm).symm

theorem length_hashBytes (env : Externals) (algorithm : DigestAlgorithm) (data : Bytes) :
    (algorithm.hashBytes env data).toList.length = 64 := by
  cases algorithm
  simp only [DigestAlgorithm.hashBytes, lowerHex, String.toList_ofList, List.length_flatMap,
    List.length_cons, List.length_nil]
  simp

/-- So the hash of a content can stand as a segment of a resource name. -/
theorem hash_segment {env : Externals} {algorithm : DigestAlgorithm} {data : Bytes} {hash : String}
    (h : algorithm.hashBytes env data = hash) : '/' ∉ hash.toList ∧ hash ≠ "" := by
  subst h
  refine ⟨slash_not_mem_hashBytes env algorithm data,?_⟩
  intro hempty
  have hlength := length_hashBytes env algorithm data
  simp [hempty] at hlength

end ReapiCache
