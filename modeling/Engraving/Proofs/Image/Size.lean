import Engraving.CommandLine.Run
import Engraving.Proofs.Except

/-!
# How large pictures are

A library may be relied upon not to decode pictures of more pixels than are allowed for, and then no
grid of gray values is larger either. The decoder for PNG files and portable files does so. In a PNG
file the size is checked before the data are read, and the chunks that are read with the data cannot
change it.
-/

namespace Engraving

/-- The library decodes no picture of more pixels than are allowed for. -/
structure PictureDecoder.IsLimited [PictureDecoder] : Prop where
  size_le {bytes : List UInt8} {p : Picture} (h : picture? bytes = .ok p) :
    p.width * p.height ≤ PictureError.maxPixels

/-- **The size of pictures.** -/
theorem size_of_sample? [PictureDecoder] (hlimited : PictureDecoder.IsLimited) {bytes : List UInt8}
    {grid : Grid} (h : sample? bytes = .ok grid) :
    grid.width * grid.height ≤ PictureError.maxPixels := by
  rw [sample?] at h
  obtain ⟨-, h⟩ := of_error_if h
  obtain ⟨p, hdecode, h⟩ := bind_eq_ok_iff.mp h
  obtain ⟨-, h⟩ := of_error_if h
  cases h
  have hheight : p.grid.height = p.height := by
    rw [Grid.height, Picture.grid, Grid.tabulate, List.length_map, List.length_range]
  rw [hheight]
  exact Int.ofNat_le.mpr (hlimited.size_le hdecode)

/-! ## Pictures in PNG files and in portable files -/

theorem PictureError.checkSize_eq_ok_iff {width height : ℕ} :
    checkSize width height = .ok () ↔ width * height ≤ maxPixels := by
  rw [checkSize]
  split
  · next h => exact iff_of_false (by rintro ⟨⟩) (Nat.not_le.mpr h)
  · next h => exact iff_of_true rfl (Nat.not_lt.mp h)

namespace Png

namespace Header

variable {h h' : Header} {file : ByteArray}

theorem size_of_readData? {c : Chunk} (hread : h.readData? file c = .ok h') :
    h'.width = h.width ∧ h'.height = h.height := by
  rw [readData?] at hread
  split at hread
  · next hnumbered =>
    have hname : c.name = "fdAT" := of_decide_eq_true hnumbered
    rw [hname] at hread
    obtain ⟨⟨⟩, -, hread⟩ := bind_eq_ok_iff.mp hread
    obtain ⟨⟨⟩, -, hread⟩ := bind_eq_ok_iff.mp hread
    cases hread
    exact ⟨rfl, rfl⟩
  · cases hread
    exact ⟨rfl, rfl⟩

theorem size_of_throughData? {last c : Chunk} {fuel : ℕ}
    (hread : throughData? file last fuel c h = .ok h') :
    h'.width = h.width ∧ h'.height = h.height := by
  induction fuel generalizing c h with
  | zero =>
    cases hread
    exact ⟨rfl, rfl⟩
  | succ fuel ih =>
    rw [throughData?] at hread
    split at hread
    · cases hread
      exact ⟨rfl, rfl⟩
    · split at hread
      · cases hread
        exact ⟨rfl, rfl⟩
      · obtain ⟨next, hnext, hread⟩ := bind_eq_ok_iff.mp hread
        obtain ⟨hwidth, hheight⟩ := ih hread
        obtain ⟨hwidth', hheight'⟩ := size_of_readData? hnext
        exact ⟨hwidth.trans hwidth', hheight.trans hheight'⟩

end Header

theorem size_of_decode? {file : ByteArray} {p : Picture} (h : decode? file = .ok p) :
    p.width * p.height ≤ PictureError.maxPixels := by
  obtain ⟨⟨head, first⟩, -, h⟩ := bind_eq_ok_iff.mp h
  rcases hformat : head.format? with _ | f <;> simp only [hformat] at h
  · cases h
  obtain ⟨-, h⟩ := of_error_if h
  obtain ⟨⟨⟩, hsize, h⟩ := bind_eq_ok_iff.mp h
  obtain ⟨-, h⟩ := of_error_if h
  obtain ⟨⟨⟩, -, h⟩ := bind_eq_ok_iff.mp h
  obtain ⟨region, -, h⟩ := bind_eq_ok_iff.mp h
  obtain ⟨filtered, -, h⟩ := bind_eq_ok_iff.mp h
  obtain ⟨head', hhead, h⟩ := bind_eq_ok_iff.mp h
  obtain ⟨⟨⟩, -, h⟩ := bind_eq_ok_iff.mp h
  obtain ⟨rows, -, h⟩ := bind_eq_ok_iff.mp h
  cases h
  obtain ⟨hwidth, hheight⟩ := Header.size_of_throughData? hhead
  rw [hwidth, hheight]
  exact PictureError.checkSize_eq_ok_iff.mp hsize

end Png

theorem Portable.size_of_decode? {bytes : List UInt8} {p : Picture} (h : decode? bytes = .ok p) :
    p.width * p.height ≤ PictureError.maxPixels := by
  obtain ⟨⟨head, rest⟩, -, h⟩ := bind_eq_ok_iff.mp h
  obtain ⟨⟨⟩, hsize, h⟩ := bind_eq_ok_iff.mp h
  split at h <;>
  · obtain ⟨samples, -, h⟩ := bind_eq_ok_iff.mp h
    cases h
    exact PictureError.checkSize_eq_ok_iff.mp hsize

theorem isLimited_decode : PictureDecoder.IsLimited := by
  refine ⟨fun {bytes p} h ↦ ?_⟩
  change Picture.decode? bytes = .ok p at h
  rw [Picture.decode?] at h
  split at h
  · exact Png.size_of_decode? h
  · exact Portable.size_of_decode? h

end Engraving
