import Steward.Supervision.Roll

set_option autoImplicit false

namespace Steward.Roll

structure Orderly (knows : String → Bool) (seen : List String) (specs : List ComponentSpec) :
    Prop where
  nodup : (specs.map (·.name)).Nodup
  new : ∀ spec ∈ specs, spec.name ∉ seen
  known : ∀ spec ∈ specs, knows spec.kind = true

theorem readFrom_orderly {knows : String → Bool} {list : Listing} {seen : List String}
    {places : List Nat} {s : Surroundings} {l l' : Loading} {specs : List ComponentSpec}
    (done : (readFrom knows list seen places).runOn s l = (.ok specs, l')) :
    Orderly knows seen specs := by
  induction places generalizing seen l specs with
  | nil =>
    cases done
    exact ⟨List.nodup_nil, by simp, by simp⟩
  | cons place places ih =>
    unfold readFrom at done
    obtain ⟨spec, l₁, -, done⟩ := LoadOr.ok_of_bind done
    split at done
    · cases done
    · next unseen =>
      split at done
      · cases done
      · next unknown =>
        obtain ⟨rest, l₂, later, done⟩ := LoadOr.ok_of_bind done
        cases done
        have orderly := ih later
        refine ⟨?_, ?_, ?_⟩
        · refine List.nodup_cons.mpr ⟨fun again => ?_, orderly.nodup⟩
          obtain ⟨other, member, same⟩ := List.mem_map.mp again
          exact orderly.new other member (by simp [same])
        · intro other member
          rcases List.mem_cons.mp member with rfl | member
          · simpa using unseen
          · exact fun before => orderly.new other member (List.mem_cons_of_mem _ before)
        · intro other member
          rcases List.mem_cons.mp member with rfl | member
          · simpa using unknown
          · exact orderly.known other member

theorem read_orderly {knows : String → Bool} {list : Listing} {s : Surroundings}
    {l l' : Loading} {specs : List ComponentSpec}
    (done : (read knows list).runOn s l = (.ok specs, l')) : Orderly knows [] specs :=
  readFrom_orderly done

end Steward.Roll
