import ShaderIR.Assembler.Search
import ShaderIR.Generics
import ShaderIR.Main
import ShaderIR.Symbols
import ShaderIR.Proofs.Spirv.SingleAssignment
import ShaderIR.Proofs.Spirv.Merging
import ShaderIR.Proofs.Spirv.Renumbering
import ShaderIR.Proofs.Pipeline.Translation
import ShaderIR.Proofs.Listing.Structs
import ShaderIR.Proofs.Listing.Faithful
import ShaderIR.Proofs.Spirv.Interfaces.EntryPoints
import ShaderIR.Proofs.Spirv.Capabilities
import ShaderIR.Proofs.Spirv.Completeness
import ShaderIR.Proofs.Spirv.MemberOffsets
import ShaderIR.Proofs.Spirv.Stopping
import ShaderIR.Proofs.Spirv.IntegerLiterals
import ShaderIR.Proofs.Spirv.Texts
import ShaderIR.Proofs.Assembler.Conversions
import ShaderIR.Proofs.Pipeline.FixedPoint
import ShaderIR.Proofs.Assembler.Substitution
import ShaderIR.Proofs.Instantiation
import ShaderIR.Proofs.Spirv.HalfPrecision
import ShaderIR.Proofs.Types.Sizes
import ShaderIR.Proofs.Assembler.Locations
