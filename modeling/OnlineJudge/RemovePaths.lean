import OnlineJudge.FileSystem

/-! The paths that `removeDir` hands to `remove`, and the names that are too long for its
buffer. -/
namespace OnlineJudge

theorem staysBehind_eq_formatted (e : String × Node)
    (hname : pathBytes e.1 ≠ str "." ∧ pathBytes e.1 ≠ str "..") :
    e.2.staysBehind = !((dirent e).formatted && e.2.removable) := by
  obtain ⟨hdot, hdots⟩ := hname
  cases hnode : e.2 <;>
    simp [Node.staysBehind, dirent, Dirent.formatted, Node.dType, hnode, hdot, hdots]

/-- `removeDir` leaves the entries whose paths it never formats, and those that `remove` refuses. -/
theorem removeDir_left {dirPath : Bytes} {entries : Entries} {left : Option Node}
    (hnames : ∀ e ∈ entries, pathBytes e.1 ≠ str "." ∧ pathBytes e.1 ≠ str "..")
    (h : removeDir dirPath (some (.dir entries)) = .ok left) :
    left = match entries.filter (fun e => !((dirent e).formatted && e.2.removable)) with
      | [] => none
      | e :: rest => some (.dir (e :: rest)) := by
  have hsame : entries.filter (·.2.staysBehind) =
      entries.filter (fun e => !((dirent e).formatted && e.2.removable)) :=
    List.filter_congr fun e he => staysBehind_eq_formatted e (hnames e he)
  have hfits : Fits dirPath entries := by
    by_contra hlong
    simp [removeDir_overrun hlong] at h
  rw [removeDir_fits hfits, hsame, Except.ok.injEq] at h
  rw [← h]
  cases entries.filter (fun e => !((dirent e).formatted && e.2.removable)) <;> rfl

/-- `removeDir` stays inside its buffer exactly when the configured directory, the run id and
every name that is formatted have at most 97 bytes together. -/
theorem removePaths_fits_iff (host : Host) (runId : UInt32) (entries : List Dirent) :
    (∃ paths, removePaths (pathBytes (workDirPath host runId)) entries = some paths) ↔
      ∀ e ∈ entries, e.formatted = true →
        (cStr host.tempDir).utf8ByteSize+(toString runId.toNat).utf8ByteSize+e.dName.length ≤
          97 := by
  have hlen : (pathBytes (workDirPath host runId)).length =
      (cStr host.tempDir).utf8ByteSize+1+(toString runId.toNat).utf8ByteSize := by
    rw [workDirPath_length, decimal, pathBytes_length, pathBytes_length]
  rw [removePaths_isSome_iff, hlen]
  constructor
  · intro h e he hform
    have hfits := h e he hform
    omega
  · intro h e he hform
    have hfits := h e he hform
    omega

/-- The class file of a class whose name is as long as a file name can be. -/
def longClass : Dirent := ⟨8, List.replicate 249 97 ++ str ".class"⟩

/-- The longest names that a file can have leave the buffer under every configuration. -/
theorem not_removePaths_fits :
    ¬ ∀ (host : Host) (runId : UInt32) (entries : List Dirent),
      (∀ e ∈ entries, 1 ≤ e.dName.length ∧ e.dName.length ≤ 255) →
      ∃ paths, removePaths (pathBytes (workDirPath host runId)) entries = some paths := by
  intro hclaim
  have hlen : longClass.dName.length = 255 := by
    rw [longClass, List.length_append, List.length_replicate]
    rfl
  have hfits := hclaim .standard 7 [longClass] (by simp [hlen])
  rw [removePaths_isSome_iff] at hfits
  have hlong := hfits longClass (by simp) rfl
  omega

end OnlineJudge
