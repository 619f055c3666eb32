import DeviceVm.Proofs.Persistent.Marking
import DeviceVm.Proofs.Sliding.Marking

/-!
Both collectors that mark find what is reached, with whatever mark stack they are given. The theorem
is applied to two small stores: in one a recorded store is all that leads to the live objects, in
the other there is no room for a mark stack at all.
-/

namespace DeviceVm

/-- Marking ends, and in the space the bits of what is reached are set and no others. The mark
stack is empty then and no push is left that was dropped. No object of the sliding heap is
forwarded: all have their headers. -/
theorem marking_finds_reachable {S : Sliding.Scene} {P : Persistent.Scene} {s u : Store}
    (hs : S.Ok s) (hp : P.Ok u) :
    Ends (Sliding.markReachable S.space) s (fun _ t => S.Marked s t) ∧
      Ends (Persistent.mark P.space P.ram P.stack P.stackSize) u fun _ t => P.Marked u t :=
  ⟨hs.markReachable_ends, hp.mark_ends⟩

theorem marking_finds_reachable_sample :
    (Sliding.sampleScene.Ok Sliding.sampleStore ∧
      Persistent.sampleScene.Ok Persistent.sampleStore) ∧
    Ends (Sliding.markReachable Sliding.sampleScene.space) Sliding.sampleStore
      (fun _ t => Sliding.sampleScene.Marked Sliding.sampleStore t) ∧
    Ends (Persistent.mark Persistent.sampleScene.space Persistent.sampleScene.ram
        Persistent.sampleScene.stack Persistent.sampleScene.stackSize) Persistent.sampleStore
      fun _ t => Persistent.sampleScene.Marked Persistent.sampleStore t :=
  ⟨⟨Sliding.sample_ok, Persistent.sample_ok⟩,
    marking_finds_reachable Sliding.sample_ok Persistent.sample_ok⟩

end DeviceVm
