import ToolRoster.Proofs.Files.Aloud
import ToolRoster.Proofs.Files.Mishaps
/-!
# What a session does to the world

What a session prints, and that it does no more than read, is told along its continuations, for all
replies at once. So it holds of a run on every tree and amid any mishaps.
-/
namespace ToolRoster

def printed (outputs : List Output) : String := String.join (outputs.map Output.printed)

theorem printed_cons (o : Output) (os : List Output) : printed (o :: os) = o.printed ++ printed os := by
  simp [printed]

namespace Session
variable {α β : Type}

/-- What holds of the result and of the printed text, whatever is replied. -/
inductive Prints : Session α → (α → String → Prop) → Prop where
  | done {a : α} {post : α → String → Prop} (h : post a "") : Prints (done a) post
  | tell {o : Output} {rest : Session α} {post : α → String → Prop}
    (h : Prints rest fun a text => post a (o.printed ++ text)) : Prints (tell o rest) post
  | ask {c : Files.Call} {rest : Files.Reply → Session α} {post : α → String → Prop}
    (h : ∀ reply, Prints (rest reply) post) : Prints (ask c rest) post

theorem Prints.mono {s : Session α} {post weaker : α → String → Prop} (h : s.Prints post)
    (hw : ∀ a text, post a text → weaker a text) : s.Prints weaker := by
  induction h generalizing weaker with
  | done h => exact .done (hw _ _ h)
  | tell h ih => exact .tell (ih fun a text => hw a _)
  | ask h ih => exact .ask fun reply => ih reply hw

theorem Prints.bind {s : Session α} {f : α → Session β} {mid : α → String → Prop}
    {post : β → String → Prop} (h : s.Prints mid)
    (hf : ∀ a text, mid a text → (f a).Prints fun b more => post b (text ++ more)) :
    (s >>= f).Prints post := by
  change (Session.bind s f).Prints post
  induction h generalizing post with
  | done h => simpa [Session.bind] using hf _ _ h
  | tell h ih =>
    refine .tell (ih fun a text ha => ?_)
    simpa only [String.append_assoc] using hf a _ ha
  | ask h ih => exact .ask fun reply => ih reply hf

theorem Prints.runAmid {s : Session α} {post : α → String → Prop} (h : s.Prints post)
    (cwd : Files.Location) (mishaps : List Files.Mishap) (t : Files.Tree) :
    post (s.runAmid cwd mishaps t).result (printed (s.runAmid cwd mishaps t).outputs) := by
  induction h generalizing mishaps t with
  | done h => exact h
  | tell h ih =>
    simp only [Session.runAmid, printed_cons]
    exact ih mishaps t
  | ask h ih => exact ih _ mishaps.tail _

def Silent (s : Session α) : Prop := s.Prints fun _ text => text = ""

theorem silent_pure (a : α) : (pure a : Session α).Silent := .done rfl

theorem silent_call (c : Files.Call) : (call c).Silent := .ask fun _ => .done rfl

theorem silent_log (e : Log.Event) : (log e).Silent := .tell (.done rfl)

theorem silent_printError (text : String) : (printError text).Silent := .tell (.done rfl)

theorem Silent.prints_bind {s : Session α} {f : α → Session β} {post : β → String → Prop}
    (h : s.Silent) (hf : ∀ a, (f a).Prints post) : (s >>= f).Prints post := by
  refine Prints.bind h fun a text ht => ?_
  simpa [ht] using hf a

theorem Silent.bind {s : Session α} {f : α → Session β} (h : s.Silent) (hf : ∀ a, (f a).Silent) :
    (s >>= f).Silent := h.prints_bind hf

/-- A session that reads files and keeps its log, and does nothing else. -/
inductive OnlyReads : Session α → Prop where
  | done (a : α) : OnlyReads (done a)
  | log {rest : Session α} (e : Log.Event) (h : OnlyReads rest) : OnlyReads (tell (.log e) rest)
  | read {rest : Files.Reply → Session α} (path : List Char) (h : ∀ reply, OnlyReads (rest reply)) :
    OnlyReads (ask (.read path) rest)

theorem onlyReads_pure (a : α) : (pure a : Session α).OnlyReads := .done a

theorem onlyReads_log (e : Log.Event) : (log e).OnlyReads := .log e (.done ())

theorem onlyReads_read (path : List Char) : (call (.read path)).OnlyReads := .read path .done

theorem OnlyReads.bind {s : Session α} {f : α → Session β} (h : s.OnlyReads)
    (hf : ∀ a, (f a).OnlyReads) : (s >>= f).OnlyReads := by
  change (Session.bind s f).OnlyReads
  induction h with
  | done a => exact hf a
  | log e h ih => exact .log e ih
  | read path h ih => exact .read path ih

theorem OnlyReads.silent {s : Session α} (h : s.OnlyReads) : s.Silent := by
  induction h with
  | done a => exact silent_pure a
  | log e h ih => exact (silent_log e).bind fun _ => ih
  | read path h ih => exact (silent_call _).bind ih

theorem OnlyReads.ensures {s : Session α} (h : s.OnlyReads) (cwd : Files.Location)
    (t : Files.Tree) : s.Ensures cwd t fun _ t' => t' = t := by
  induction h with
  | done a => exact fun _ => rfl
  | log e h ih => exact ih
  | read path h ih =>
    refine Ensures.bind (ensures_read cwd path t) fun reply t' ht => ?_
    rw [ht.1]
    exact ih reply

theorem OnlyReads.run_bind {s : Session α} (h : s.OnlyReads) (f : α → Session β)
    (cwd : Files.Location) (t : Files.Tree) :
    let o := (s >>= f).run cwd t
    let p := (f (s.run cwd t).result).run cwd t
    o.result = p.result ∧ o.tree = p.tree ∧ printed o.outputs = printed p.outputs := by
  change let o := (Session.bind s f).run cwd t; _
  induction h with
  | done a => exact ⟨rfl, rfl, rfl⟩
  | log e h ih =>
    refine ⟨ih.1, ih.2.1, ?_⟩
    exact (printed_cons _ _).trans (String.empty_append.trans ih.2.2)
  | read path h ih => exact ih _

theorem OnlyReads.quiet {s : Session α} (h : s.OnlyReads) (cwd : Files.Location) (t : Files.Tree) :
    s.Quiet cwd t := by
  induction h with
  | done a => rfl
  | log e h ih => exact (quiet_log e).bind fun _ => ih
  | read path h ih => exact (quiet_read path).bind ih

end Session

namespace Files
open Session (onlyReads_pure)

theorem onlyReads_readText (path : SlashPath) : (readText path).OnlyReads := by
  refine (Session.onlyReads_read path.chars).bind fun reply => ?_
  cases reply with
  | error e => exact onlyReads_pure _
  | ok bytes =>
    simp only
    split
    · exact onlyReads_pure _
    · exact onlyReads_pure _

open Session (silent_call silent_log silent_pure)

theorem silent_fill (path : List Char) (chunks : List ByteArray) : (fill path chunks).Silent := by
  induction chunks with
  | nil => exact silent_call _
  | cons chunk chunks ih =>
    refine (silent_call _).bind fun reply => ?_
    cases reply with
    | ok bytes => exact ih
    | error e => exact silent_pure _

theorem silent_complete (temp target : List Char) (chunks : List ByteArray) :
    (complete temp target chunks).Silent := by
  refine (silent_fill temp chunks).bind fun reply => ?_
  cases reply with
  | ok bytes => exact silent_call _
  | error e => exact silent_pure _

theorem silent_writeChunks (process : Nat) (path : SlashPath) (chunks : List ByteArray) :
    (writeChunks process path chunks).Silent := by
  refine (silent_call _).bind fun reply => ?_
  cases reply with
  | error e => exact silent_pure _
  | ok bytes =>
    refine (silent_complete _ _ chunks).bind fun reply => ?_
    cases reply with
    | error e => exact (silent_call _).bind fun _ => silent_pure _
    | ok bytes => exact (silent_log _).bind fun _ => silent_pure _

end Files
end ToolRoster
