import CatalogQuery.Proofs.Session.Account
import CatalogQuery.Session.Script

/-!
# The account of a script

A script may let any call fail. Its statements stay apart all the same, and closing one that fails to
be closed frees it nevertheless.

* `Playback.account`: what is known of a script that is being played;
* `Playback.backend_orderly`, `Playback.backend_frees`: the backend of scripts keeps to it.
-/

namespace CatalogQuery

/-- What is left of a scripted statement: rows, as long as no fetch of it is to fail. -/
def ScriptedStatement.view (t : ScriptedStatement) : StatementView :=
  match t.left.mapM Except.toOption with
  | some rows => .holding rows
  | none => .open

theorem ScriptedStatement.view_ne_gone (t : ScriptedStatement) : t.view ≠ .gone := by
  unfold view
  split <;> exact nofun

namespace Playback

variable {p : Playback} {id : StatementId}

/-- Ids are at most the number of statements run. -/
def account : Account Playback where
  valid p := ∀ t ∈ p.statements, t.id.number ≤ p.runs
  view p id := (p.find? id).elim .gone ScriptedStatement.view

theorem valid_start (script : Script) : account.valid { script := script } :=
  fun _ ht => absurd ht List.not_mem_nil

theorem opened_iff : account.Opened p id ↔ (p.find? id).isSome := by
  simp only [Account.Opened, account]
  cases h : p.find? id with
  | none => simp
  | some t => simpa using t.view_ne_gone

/-- Playbacks that find the same statement see the same of it. -/
theorem view_congr {p' : Playback} (h : p'.find? id = p.find? id) :
    account.view p' id = account.view p id := by
  simp only [account, h]

/-- Whatever else is noted of a playback, its statements are as before. -/
theorem keeps_of_statements {p' : Playback} (hp : account.valid p)
    (hstatements : p'.statements = p.statements) (hruns : p.runs ≤ p'.runs) :
    account.Keeps (fun _ => True) p p' where
  valid := by
    intro t ht
    rw [hstatements] at ht
    exact Nat.le_trans (hp t ht) hruns
  view := by
    intro id _
    apply view_congr
    rw [find?, hstatements, find?]

theorem find?_fresh (hp : account.valid p) : p.find? ⟨p.runs + 1⟩ = none := by
  refine List.find?_eq_none.mpr fun t ht => ?_
  have hle := hp t ht
  simp only [beq_iff_eq]
  intro heq
  simp only [heq] at hle
  omega

theorem find?_append_fresh (hp : account.valid p) {t : ScriptedStatement}
    (ht : t.id = ⟨p.runs + 1⟩) :
    (p.statements ++ [t]).find? (·.id == ⟨p.runs + 1⟩) = some t := by
  have hnone : p.statements.find? (·.id == ⟨p.runs + 1⟩) = none := find?_fresh hp
  exact StatementId.find?_append_self ht hnone

/-! ## The laws -/

theorem run_ok {sql : String} {binds : List String} {skip : Nat} {p' : Playback}
    (hp : account.valid p) (h : run sql binds skip p = (.ok id, p')) : account.Opens id p p' := by
  unfold run at h
  dsimp only at h
  split at h
  · cases h
  · obtain ⟨hid, rfl⟩ := Prod.mk.inj h
    obtain rfl : id = ⟨p.runs + 1⟩ := (Except.ok.inj hid).symm
    refine ⟨?_, ?_, ?_, ?_⟩
    · rw [opened_iff, find?_fresh hp]
      exact Bool.false_ne_true
    · rw [opened_iff, Option.isSome_iff_exists]
      exact ⟨_, find?_append_fresh hp rfl⟩
    · intro t ht
      rcases List.mem_append.mp ht with ht | ht
      · exact Nat.le_succ_of_le (hp t ht)
      · cases List.mem_singleton.mp ht
        exact Nat.le_refl _
    · exact fun other hne => view_congr (StatementId.find?_append_of_ne hne)

theorem run_error {sql : String} {binds : List String} {skip : Nat} {f : BackendFailure}
    {p' : Playback} (hp : account.valid p) (h : run sql binds skip p = (.error f, p')) :
    account.Keeps (fun _ => True) p p' := by
  unfold run at h
  dsimp only at h
  split at h
  · obtain ⟨-, rfl⟩ := Prod.mk.inj h
    exact keeps_of_statements hp rfl (Nat.le_succ _)
  · cases h

theorem fetch_touches (hp : account.valid p) (id : StatementId) :
    account.Touches id p (fetch id p).2 := by
  have hrecord : account.Touches id p (p.record (.fetch id)) :=
    .of_keeps (keeps_of_statements hp rfl (Nat.le_refl _))
  unfold fetch
  dsimp only
  split
  · exact hrecord
  · split
    · exact hrecord
    · next left _ =>
      let f : ScriptedStatement → ScriptedStatement :=
        fun t => if t.id = id then { t with left := left } else t
      have hf : ∀ t, (f t).id = t.id := by
        intro t
        simp only [f]
        split <;> rfl
      constructor
      case keeps =>
        refine ⟨fun o ho => ?_, fun other hne => ?_⟩
        · obtain ⟨t, ht, rfl⟩ := List.mem_map.mp ho
          rw [hf]
          exact hp t ht
        · apply view_congr
          apply (StatementId.find?_map hf).trans
          show (p.find? other).map f = p.find? other
          cases hother : p.find? other with
          | none => rfl
          | some t =>
            have ht : t.id = other := by simpa using List.find?_some hother
            simp [f, ht, hne]
      case opened =>
        intro hopened
        rw [opened_iff] at hopened ⊢
        have hmap : { p with statements := p.statements.map f }.find? id = (p.find? id).map f :=
          StatementId.find?_map hf
        show ({ p with statements := p.statements.map f }.find? id).isSome
        rw [hmap, Option.isSome_map]
        exact hopened

theorem close_statements (p : Playback) (id : StatementId) :
    (close id p).2.statements = p.statements.filter (·.id != id) ∧ (close id p).2.runs = p.runs := by
  unfold close
  dsimp only
  split <;> exact ⟨rfl, rfl⟩

theorem close_keeps (hp : account.valid p) (id : StatementId) :
    account.Keeps (· ≠ id) p (close id p).2 := by
  obtain ⟨hstatements, hruns⟩ := close_statements p id
  constructor
  · intro t ht
    rw [hstatements] at ht
    rw [hruns]
    exact hp t (List.mem_filter.mp ht).1
  · intro other hne
    apply view_congr
    rw [find?, hstatements]
    exact StatementId.find?_filter_of_ne hne

theorem backend_orderly : Playback.backend.Orderly account where
  run_ok := run_ok
  run_error := run_error
  fetch id _ hp := fetch_touches hp id
  rowCount := by
    intro id p hp
    simp only [backend, rowCount]
    split
    · exact keeps_of_statements hp rfl (Nat.le_refl _)
    · split <;> exact keeps_of_statements hp rfl (Nat.le_refl _)
  close id _ hp := close_keeps hp id
  scalar := by
    intro sql binds p hp
    simp only [backend, scalar]
    split <;> exact keeps_of_statements hp rfl (Nat.le_refl _)
  access := by
    intro object user zone level p hp
    simp only [backend, access]
    split <;> exact keeps_of_statements hp rfl (Nat.le_refl _)

theorem backend_frees : Playback.backend.Frees account := by
  intro id p _
  obtain ⟨hstatements, -⟩ := close_statements p id
  show ¬account.Opened (close id p).2 id
  rw [opened_iff, find?, hstatements, StatementId.find?_filter_self]
  exact Bool.false_ne_true

end Playback

end CatalogQuery
