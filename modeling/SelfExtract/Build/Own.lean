import SelfExtract.Build
import SelfExtract.Zstandard.Decoder
import SelfExtract.Zstandard.Store

/-!
# The programs that are built here

Their library reads all of the frame format and writes plain blocks, which are
the same at every level of compression.
-/
namespace SelfExtract

def Zstandard.own : Compression where
  frame _ data := .ok (store data)
  content := source

def Codec.zstd : Codec :=
  standard Zstandard.own

/-- Programs for Linux with glibc. -/
def Build.own : Build :=
  ⟨Zstandard.own, .linux, .x64, false⟩

end SelfExtract
