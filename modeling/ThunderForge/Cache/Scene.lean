import ThunderForge.Basic
import ThunderForge.Lib.BigEndian
import ThunderForge.Lib.SortBy

/-! The canonical form of a scene (`cache-core/src/manifest.rs`), which its fingerprint is taken over: two scenes have
the same bytes exactly when they hold the same entities, in whatever order these came. -/

namespace ThunderForge.Cache

/-- An `i64`, by its bits. -/
abbrev I64 := BitVec 64

/-- Version of the canonical serialization. -/
def canonicalVersion : UInt32 := 1

/-- One entity's contribution to a scene's canonical form, in milli-units. -/
structure CanonicalEntity where
  id : Uuid
  xMilli : I64
  yMilli : I64
  rotationMilli : I64
  scaleMilli : I64
  deriving DecidableEq

/-- The stable serialization a scene's fingerprint is taken over. -/
structure CanonicalSceneState where
  version : UInt32
  sceneId : Uuid
  entities : List CanonicalEntity
  deriving DecidableEq

namespace CanonicalSceneState

/-- Build from entities in any order; they are sorted here. -/
def new (sceneId : Uuid) (entities : List CanonicalEntity) : CanonicalSceneState where
  version := canonicalVersion
  sceneId := sceneId
  entities := SortBy.sortBy (fun entity => entity.id.toNat) entities

end CanonicalSceneState

def CanonicalEntity.bytes (entity : CanonicalEntity) : List UInt8 :=
  BigEndian.encode 16 entity.id.toNat ++ BigEndian.encode 8 entity.xMilli.toNat ++
    BigEndian.encode 8 entity.yMilli.toNat ++ BigEndian.encode 8 entity.rotationMilli.toNat ++
      BigEndian.encode 8 entity.scaleMilli.toNat

/-- The bytes this state hashes over. -/
def CanonicalSceneState.canonicalBytes (state : CanonicalSceneState) : List UInt8 :=
  BigEndian.encode 4 state.version.toNat ++ BigEndian.encode 16 state.sceneId.toNat ++
    BigEndian.encode 8 state.entities.length ++ state.entities.flatMap CanonicalEntity.bytes

theorem CanonicalEntity.bytes_length (entity : CanonicalEntity) : entity.bytes.length = 48 := by
  simp [CanonicalEntity.bytes]

theorem CanonicalEntity.bytes_injective : Function.Injective CanonicalEntity.bytes := by
  intro left right h
  unfold CanonicalEntity.bytes at h
  simp only [List.append_assoc] at h
  obtain ⟨hid, h⟩ := BigEndian.encode_bits_append_inj (by norm_num) h
  obtain ⟨hx, h⟩ := BigEndian.encode_bits_append_inj (by norm_num) h
  obtain ⟨hy, h⟩ := BigEndian.encode_bits_append_inj (by norm_num) h
  rw [← List.append_nil (BigEndian.encode 8 left.scaleMilli.toNat),
    ← List.append_nil (BigEndian.encode 8 right.scaleMilli.toNat)] at h
  obtain ⟨hrotation, h⟩ := BigEndian.encode_bits_append_inj (by norm_num) h
  obtain ⟨hscale, -⟩ := BigEndian.encode_bits_append_inj (by norm_num) h
  cases left
  cases right
  congr

/-- The bytes tell the state. -/
theorem CanonicalSceneState.canonicalBytes_injective : Function.Injective canonicalBytes := by
  intro left right h
  unfold canonicalBytes at h
  simp only [List.append_assoc] at h
  have hversion (state : CanonicalSceneState) : state.version.toNat < 256 ^ 4 := state.version.toNat_lt
  obtain ⟨hversions, h⟩ := BigEndian.encode_append_inj (hversion left) (hversion right) h
  obtain ⟨hid, h⟩ := BigEndian.encode_bits_append_inj (by norm_num) h
  obtain ⟨-, h⟩ := List.append_inj h (by simp)
  have hentities := BigEndian.flatMap_injective (by norm_num) CanonicalEntity.bytes_length CanonicalEntity.bytes_injective h
  cases left
  cases right
  congr
  exact UInt32.toNat_inj.mp hversions

/-- Scenes with entities of pairwise distinct ids have the same bytes exactly when they are one scene, with the same
entities in some order. -/
theorem canonicalBytes_eq_iff {sceneId sceneId' : Uuid} {entities entities' : List CanonicalEntity}
    (hids : (entities.map CanonicalEntity.id).Nodup) (hids' : (entities'.map CanonicalEntity.id).Nodup) :
    (CanonicalSceneState.new sceneId entities).canonicalBytes =
        (CanonicalSceneState.new sceneId' entities').canonicalBytes ↔
      sceneId = sceneId' ∧ entities.Perm entities' := by
  rw [CanonicalSceneState.canonicalBytes_injective.eq_iff]
  constructor
  · intro h
    have hsorted := congrArg CanonicalSceneState.entities h
    refine ⟨congrArg CanonicalSceneState.sceneId h, ?_⟩
    exact ((SortBy.sortBy_perm _ entities).symm.trans (.of_eq hsorted)).trans (SortBy.sortBy_perm _ entities')
  · rintro ⟨rfl, hperm⟩
    have hkeys {entities : List CanonicalEntity} (hids : (entities.map CanonicalEntity.id).Nodup) :
        (entities.map fun entity => entity.id.toNat).Nodup := by
      rw [← Function.comp_def, ← List.map_map]
      exact hids.map fun _ _ => BitVec.eq_of_toNat_eq
    have hsorted : SortBy.sortBy (fun entity : CanonicalEntity => entity.id.toNat) entities =
        SortBy.sortBy (fun entity => entity.id.toNat) entities' := by
      refine SortBy.eq_of_pairwise_lt (SortBy.pairwise_lt_sortBy _ (hkeys hids))
        (SortBy.pairwise_lt_sortBy _ (hkeys hids')) fun entity => ?_
      rw [SortBy.mem_sortBy, SortBy.mem_sortBy, hperm.mem_iff]
    rw [CanonicalSceneState.new, CanonicalSceneState.new, hsorted]

def token (id : Uuid) (xMilli : I64) : CanonicalEntity :=
  { id, xMilli, yMilli := 0, rotationMilli := 0, scaleMilli := 1000 }

/-- Two tokens, read from the database in either order. -/
theorem two_tokens_same_bytes :
    (CanonicalSceneState.new 1 [token 2 500, token 1 0]).canonicalBytes =
        (CanonicalSceneState.new 1 [token 1 0, token 2 500]).canonicalBytes ↔
      (1 : Uuid) = 1 ∧ [token 2 500, token 1 0].Perm [token 1 0, token 2 500] :=
  canonicalBytes_eq_iff (by decide) (by decide)

end ThunderForge.Cache
