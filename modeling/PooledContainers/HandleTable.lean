/-
Handles under names. A caller that keeps several references at once names them; a name stands for
one handle, and putting a handle under a name in use displaces the one that was there.
-/

namespace PooledContainers

/-- Named handles. -/
structure HandleTable (Handle : Type) where
  /-- The handles with their names, the latest first. -/
  entries : List (String × Handle)
  /-- No name stands for two handles. -/
  distinct : (entries.map Prod.fst).Nodup

namespace HandleTable

variable {Handle : Type}

/-- No handles. -/
def empty : HandleTable Handle := ⟨[], List.nodup_nil⟩

/-- The handle under a name. -/
def find? (table : HandleTable Handle) (name : String) : Option Handle :=
  table.entries.lookup name

/-- The table without a name. -/
def erase (table : HandleTable Handle) (name : String) : HandleTable Handle where
  entries := table.entries.filter fun entry => entry.1 != name
  distinct := table.distinct.sublist (List.filter_sublist.map Prod.fst)

/-- An erased name is nowhere in the table. -/
theorem not_mem_erase (table : HandleTable Handle) (name : String) :
    name ∉ (table.erase name).entries.map Prod.fst := by
  intro member
  obtain ⟨entry, kept, same⟩ := List.mem_map.mp member
  have different := (List.mem_filter.mp kept).2
  rw [same] at different
  simp at different

/-- The table with a handle under a name; one that was there before is displaced. -/
def put (table : HandleTable Handle) (name : String) (handle : Handle) : HandleTable Handle where
  entries := (name, handle) :: (table.erase name).entries
  distinct := List.nodup_cons.mpr ⟨table.not_mem_erase name, (table.erase name).distinct⟩

/-- The handles, without their names. -/
def handles (table : HandleTable Handle) : List Handle := table.entries.map Prod.snd

end HandleTable

end PooledContainers
