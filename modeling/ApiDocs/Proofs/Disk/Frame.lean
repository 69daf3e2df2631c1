import ApiDocs.Proofs.Disk.Read
/-!
# What writes leave alone

A write that fails may leave new folders behind, but changes no text (`grown_of_error`). So whatever becomes of the
write of a document, the texts at all places but its own stay as they were (`frame_writeDocument`). Such frames are put
together one after the other (`Frame.trans`).
-/
namespace ApiDocs.Disk

/-- A change of a disk that keeps the texts everywhere but at some places, and brings nothing but simple names. -/
structure Frame (way : Place → Prop) (d d' : Disk) : Prop where
  home : d'.home = d.home
  locked : d'.locked = d.locked
  text? : ∀ q, d'.text? q = d.text? q ∨ way q
  simple : ∀ place n, d.at? (place ++ [n]) = none → d'.at? (place ++ [n]) ≠ none → Simple n

variable {d d' d₁ : Disk} {q : Place} {path text : String} {v : Json} {fault : Fault} {r : Outcome Unit}
  {way way' : Place → Prop}

theorem Frame.refl (way : Place → Prop) (d : Disk) : Frame way d d :=
  ⟨rfl, rfl, fun _ => .inl rfl, fun _ _ hnone hne => absurd hnone hne⟩

theorem Frame.trans (h : Frame way d d₁) (h' : Frame way d₁ d') : Frame way d d' := by
  refine ⟨h'.home.trans h.home, h'.locked.trans h.locked, fun q => ?_, fun place n hnone hne => ?_⟩
  · rcases h.text? q with ht | hw
    · exact (h'.text? q).imp_left fun ht' => ht'.trans ht
    · exact .inr hw
  · by_cases hnone₁ : d₁.at? (place ++ [n]) = none
    · exact h'.simple place n hnone₁ hne
    · exact h.simple place n hnone hnone₁

theorem Frame.mono (h : Frame way d d') (hw : ∀ q, way q → way' q) : Frame way' d d' :=
  ⟨h.home, h.locked, fun q => (h.text? q).imp_right (hw q), h.simple⟩

theorem Frame.of_place (h : Frame (· = q) d d') (hq : way q) : Frame way d d' :=
  h.mono fun q' (hq' : q' = q) => hq' ▸ hq

theorem Grown.text? (h : Grown way d d') (q : Place) : d'.text? q = d.text? q := by
  rcases h.at? q with he | ⟨hnone, hnew, -⟩
  · rw [Disk.text?, he]
    rfl
  · rw [Disk.text?, Disk.text?, hnone, hnew]

/-- Folders on the way to the place of a path change no text. -/
theorem Grown.frame {here : Place} (h : Grown (OnWay here (Path.names path).dropLast) d d') :
    Frame way' d d' := by
  refine ⟨h.home, h.locked, fun q => .inl (h.text? q), fun place n hnone hne => ?_⟩
  rcases h.at? (place ++ [n]) with he | ⟨-, -, -, hway⟩
  · exact absurd (he.trans hnone) hne
  · exact hway.simple

theorem Written.frame (hd : IsDocument path) (h : Written path text d d') :
    Frame (· = placeAt d.home path) d d' := by
  refine ⟨h.home, h.locked, fun q => ?_, fun place n hnone hne => ?_⟩
  · rw [h.text?]
    by_cases hq : q = placeAt d.home path
    · exact .inr hq
    · exact .inl (if_neg hq)
  · by_cases hq : place ++ [n] = placeAt d.home path
    · exact hd.simple hq
    · rcases h.others _ hq with he | ⟨-, -, -, hway⟩
      · exact absurd (he.trans hnone) hne
      · exact hway.simple

/-- A document that cannot be written leaves nothing but folders on the way to its place. -/
theorem grown_of_error (hd : IsDocument path) (h : d.writeDocument path v = (.error fault, d')) :
    Grown (OnWay (start d.home path) (Path.names path).dropLast) d d' := by
  obtain ⟨ps, n, hp⟩ := hd
  obtain ⟨above, hparent, habove, -⟩ := exists_parent hp (proper_json n).not_idle
  unfold writeDocument at h
  simp only [hparent] at h
  split at h
  case h_1 hm =>
    obtain ⟨-, rfl⟩ := Prod.mk.inj h
    exact grown_makeFolders habove hm
  case h_2 d₁ hm =>
    split at h
    case h_1 hw =>
      obtain ⟨-, rfl⟩ := Prod.mk.inj h
      rw [writeText_error hw]
      exact grown_makeFolders habove hm
    case h_2 => cases h

/-- The write of a document, good or bad, changes no text but the one at its place. -/
theorem frame_writeDocument (hd : IsDocument path) (h : d.writeDocument path v = (r, d')) :
    Frame (· = placeAt d.home path) d d' := by
  cases r with
  | ok u => exact (written_of_isDocument hd h).frame hd
  | error fault => exact (grown_of_error hd h).frame

end ApiDocs.Disk
