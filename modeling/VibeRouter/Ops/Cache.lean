import VibeRouter.Gateway.Envelope
import VibeRouter.Lib.JsMap

/-! # The response cache

An in-memory map from keys to responses with a time to live; the least recently used entry is
dropped when the map is full. -/

namespace VibeRouter

structure CacheEntry where
  response : AIResponse
  expiresAt : ℚ

structure ResponseCache where
  entries : JsMap String CacheEntry
  maxEntries : ℕ := 1000

namespace ResponseCache

def key (firmId : Uuid) (model : String) (requestHash paramsDigest : Digest) : String :=
  firmId.text ++ ":" ++ model ++ ":" ++ requestHash.text ++ ":" ++ paramsDigest.text

/-- A key determines its parts, whatever the name of the model has in it. -/
theorem key_injective {firmId firmId' : Uuid} {model model' : String} {h h' d d' : Digest}
    (heq : key firmId model h d = key firmId' model' h' d') :
    firmId = firmId' ∧ model = model' ∧ h = h' ∧ d = d' := by
  have hlist : firmId.text.toList ++ ':' :: (model.toList ++ ':' :: (h.text.toList ++ ':' ::
      d.text.toList)) = firmId'.text.toList ++ ':' :: (model'.toList ++ ':' ::
      (h'.text.toList ++ ':' :: d'.text.toList)) := by
    simpa [key] using congrArg String.toList heq
  obtain ⟨hfirm, hrest⟩ := HexText.append_colon_inj firmId.no_colon firmId'.no_colon hlist
  -- the digests come last, so the rest is read from its end
  have hrev := congrArg List.reverse hrest
  simp only [List.reverse_append, List.reverse_cons, List.append_assoc, List.singleton_append]
    at hrev
  have hno : ∀ x : HexText, ':' ∉ x.text.toList.reverse := fun x hx =>
    x.no_colon (List.mem_reverse.1 hx)
  obtain ⟨hd, hrev⟩ := HexText.append_colon_inj (hno d) (hno d') hrev
  obtain ⟨hh, hrev⟩ := HexText.append_colon_inj (hno h) (hno h') hrev
  exact ⟨HexText.ext_text (String.toList_injective hfirm),
    String.toList_injective (List.reverse_injective hrev),
    HexText.ext_text (String.toList_injective (List.reverse_injective hh)),
    HexText.ext_text (String.toList_injective (List.reverse_injective hd))⟩

/-- The response under a key, and the cache after the look-up. -/
def get (c : ResponseCache) (k : String) (now : ℕ) : Option AIResponse × ResponseCache :=
  match c.entries.get k with
  | none => (none, c)
  | some entry =>
      if entry.expiresAt < now then (none, { c with entries := c.entries.delete k })
      else (some entry.response, { c with entries := (c.entries.delete k).set k entry })

/-- Drop the oldest key. -/
def evict (c : ResponseCache) : ResponseCache :=
  match c.entries.keys.head? with
  | some oldest => { c with entries := c.entries.delete oldest }
  | none => c

def set (c : ResponseCache) (k : String) (response : AIResponse) (ttlSeconds : ℚ) (now : ℕ) :
    ResponseCache :=
  if ttlSeconds ≤ 0 then c
  else
    let c := if c.maxEntries ≤ c.entries.size then c.evict else c
    { c with entries := c.entries.set k ⟨response, now + ttlSeconds * 1000⟩ }

end ResponseCache

end VibeRouter
