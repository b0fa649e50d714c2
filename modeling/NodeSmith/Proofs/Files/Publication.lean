import NodeSmith.Proofs.Files.Faults
import NodeSmith.Proofs.Outcome
import NodeSmith.Proofs.Text.Points

set_option autoImplicit false

namespace NodeSmith

open TreeM (FailsOnly)

namespace Tree

theorem createDirectory_unrelated (path : String) :
    FailsOnly Fault.Unrelated (FileStore.createDirectory path : TreeM Unit) :=
  .change fun tree => tree.createDirectory_fails path

theorem kind_unrelated (path : String) :
    FailsOnly Fault.Unrelated (FileStore.kind? path : TreeM (Option EntryKind)) := by
  intro tree fault after impossible
  cases impossible

theorem stage_unrelated (directory hint : String) :
    FailsOnly Fault.Unrelated (FileStore.stage directory hint : TreeM String) := by
  intro tree fault after failed
  have fails := tree.stage_fails directory hint
  cases staged : tree.stage directory hint with
  | ok made =>
    simp only [FileStore.stage, staged] at failed
    cases failed
  | error reason =>
    simp only [FileStore.stage, staged] at failed
    cases failed
    exact fails _ staged

theorem overwrite_unrelated (path : String) (bytes : ByteArray) :
    FailsOnly Fault.Unrelated (FileStore.overwrite path bytes : TreeM Unit) :=
  .change fun tree => tree.overwrite_fails path bytes

end Tree

namespace Publication

variable {check : Option Check} {content : String}

theorem ensureDirectory_unrelated (path : Path) {onMissing : TreeM Unit}
    (missing : FailsOnly Fault.Unrelated onMissing) :
    FailsOnly Fault.Unrelated (ensureDirectory path onMissing) := by
  apply FailsOnly.tryCatch (Tree.createDirectory_unrelated _)
  intro fault unrelated
  split
  · exact missing
  · apply FailsOnly.bind (Tree.kind_unrelated _)
    intro kind
    split
    · exact .pure ()
    · exact .throw unrelated

theorem ensureNames_unrelated (root : String) (names : List String) :
    FailsOnly Fault.Unrelated (ensureNames root names : TreeM Unit) := by
  have missing : FailsOnly Fault.Unrelated (throw .missing : TreeM Unit) := .throw nofun
  induction names with
  | nil => exact ensureDirectory_unrelated _ missing
  | cons name above ih =>
    exact ensureDirectory_unrelated _
      (.bind ih fun _ => ensureDirectory_unrelated _ missing)

theorem verify_unrelated (accepts : ∀ applied, check = some applied → applied content = .ok ()) :
    FailsOnly Fault.Unrelated (verify check content : TreeM Unit) := by
  unfold verify
  cases check with
  | none => exact .pure ()
  | some applied =>
    dsimp only
    rw [accepts applied rfl]
    exact .pure ()

theorem encode_unrelated (content : String) :
    FailsOnly Fault.Unrelated (encode content : TreeM ByteArray) := by
  unfold encode
  split
  · exact .pure _
  · rename_i fault fails
    rw [Text.encode_eq_error fails]
    exact .throw nofun

theorem replaceFile_unrelated (target : Path)
    (accepts : ∀ applied, check = some applied → applied content = .ok ()) :
    FailsOnly Fault.Unrelated (replaceFile check target content : TreeM Unit) := by
  have removed (path : String) : FailsOnly Fault.Unrelated (FileStore.remove path : TreeM Unit) :=
    .change fun tree => tree.remove_fails path
  apply FailsOnly.bind (ensureNames_unrelated _ _)
  intro _
  apply FailsOnly.bind (Tree.stage_unrelated _ _)
  intro staged
  apply FailsOnly.tryCatch
  · apply FailsOnly.bind (encode_unrelated content)
    intro bytes
    apply FailsOnly.bind (Tree.overwrite_unrelated staged bytes)
    intro _
    exact .bind (verify_unrelated accepts) fun _ => .change fun tree => tree.replace_fails staged _
  · intro fault unrelated
    exact .bind (removed staged) fun _ => .throw unrelated

theorem overwriteFile_unrelated (target : Path)
    (accepts : ∀ applied, check = some applied → applied content = .ok ()) :
    FailsOnly Fault.Unrelated (overwriteFile check target content : TreeM Unit) := by
  apply FailsOnly.bind (verify_unrelated accepts)
  intro _
  apply FailsOnly.bind (Tree.overwrite_unrelated _ _)
  intro _
  exact .bind (encode_unrelated content) fun _ => Tree.overwrite_unrelated _ _

/-- A visible text that closes as many braces as it opens passes the check. -/
theorem wellBraced_eq_ok {content : String} {c : Char} (member : c ∈ content.toList)
    (visible : Text.isBlank c = false)
    (balanced : content.toList.count '{' = content.toList.count '}') :
    wellBraced content = .ok () := by
  have some : content.toList.all Text.isBlank = false := by
    rw [List.all_eq_false]
    exact ⟨c, member, by rw [visible]; exact Bool.false_ne_true⟩
  simp only [wellBraced, some, Bool.false_eq_true, ↓reduceIte, balanced]

end Publication

/-- A session that generates a text which passes the check never rejects it. -/
theorem Session.publish_unrelated {generator : Generator} {content : String}
    (made : generator.text = .ok content) (passes : Publication.wellBraced content = .ok ())
    (target : Path) :
    FailsOnly Fault.Unrelated
      (Session.publish generator.settings generator.schema target : TreeM Tables) := by
  obtain ⟨catalog, indexed, written⟩ := Outcome.bind_eq_ok.mp made
  have given {α β : Type} (value : α) (next : α → TreeM β) :
      (ofExcept (.ok value) : TreeM α) >>= next = next value := rfl
  have validated : Outcome.FailsOnly Fault.Unrelated generator.settings.output.validated := by
    cases generator.settings.output with
    | choices => exact .ok _
    | other => exact .error nofun
  have atomic : Outcome.FailsOnly Fault.Unrelated generator.settings.output.atomic := by
    cases generator.settings.output with
    | choices => exact .ok _
    | other => exact .error nofun
  rw [publish, indexed, given, written, given]
  apply FailsOnly.bind (.ofExcept validated)
  intro checked
  apply FailsOnly.bind (.ofExcept atomic)
  intro staged
  have accepts : ∀ applied, (if checked = true then some Publication.wellBraced else none) =
      some applied → applied content = .ok () := by
    intro applied chosen
    split at chosen
    · cases chosen
      exact passes
    · cases chosen
  cases staged with
  | true => exact .bind (Publication.replaceFile_unrelated target accepts) fun _ => .pure _
  | false => exact .bind (Publication.overwriteFile_unrelated target accepts) fun _ => .pure _

end NodeSmith
