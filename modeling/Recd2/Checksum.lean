import Recd2.Types

/-! The LRC checksum of a frame (`utils/types.cpp`). -/

namespace Recd2

/-- The loops over the counter, `null_bytes` and `data`, in that order. The last one counts the samples but
    walks over bytes, and so ends in the middle of the data. -/
def lrcBytes (fd : FrameData) : List UInt8 :=
  le32 fd.counter ++ fd.nullBytes.toList ++ (fd.data.toList.flatMap le16).take 512

def checksumLrc (fd : FrameData) : UInt8 := ((lrcBytes fd).foldl (· + ·) 0 ^^^ 0xff) + 1

/-- `gen_checksum_lrc`: the frame after the call. -/
def genChecksumLrc (fd : FrameData) : FrameData := { fd with checksum := checksumLrc fd }

end Recd2
