import Classgraph.General.Memory
import Classgraph.General.Run
import Classgraph.General.Emits
import Classgraph.General.Writes
import Classgraph.General.PathTree
import Classgraph.General.Forest
import Classgraph.General.DepthFirst
import Classgraph.General.Numeral
import Classgraph.General.Leb128
import Classgraph.General.Regex
import Classgraph.General.Rewrite
import Classgraph.Types
import Classgraph.Demangle
import Classgraph.Loader
import Classgraph.DyldBindInfo
import Classgraph.SymtabMacho
import Classgraph.SymtabElf
import Classgraph.Library
import Classgraph.Symtab
import Classgraph.Main
import Classgraph.Fixup
import Classgraph.Templates
import Classgraph.LibWalk
import Classgraph.LibPrefix
import Classgraph.ElfFile
import Classgraph.VmRanges
import Classgraph.Translation
import Classgraph.Slices
import Classgraph.LoadCommands
import Classgraph.TwoFiles
import Classgraph.BindOperands
import Classgraph.BindStream
import Classgraph.BindNames
import Classgraph.Symcache
import Classgraph.Resolution
import Classgraph.CommandOrder
import Classgraph.Relocations
import Classgraph.BindLookup
import Classgraph.BindProgram
import Classgraph.MachoSymbols
import Classgraph.Registration
import Classgraph.Dependencies
import Classgraph.LoadOrder
import Classgraph.ElfInit
import Classgraph.ElfSymbols
import Classgraph.MachoLoad
import Classgraph.Unfolding
import Classgraph.Roots
import Classgraph.Filter
import Classgraph.AddrLookup
import Classgraph.LibTable
import Classgraph.RttiReads
import Classgraph.ReadFaults
import Classgraph.TypeinfoGrammar
import Classgraph.Indentation
import Classgraph.Faults
import Classgraph.SymbolOrder
import Classgraph.Output
import Classgraph.OutputGrammar
import Classgraph.Endings
import Classgraph.TypeGraph
import Classgraph.ClassImage
import Classgraph.ProcessImage
import Classgraph.Restricted
import Classgraph.UniversalRun
